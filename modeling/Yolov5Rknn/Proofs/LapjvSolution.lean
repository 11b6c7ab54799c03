import Yolov5Rknn.Proofs.LapjvPath

/-! The augmentation along a path and the whole solver in exact arithmetic: it returns 0
and two inverse permutations of least cost. -/

namespace Yolov5Rknn.Lapjv
open Program Augmenting

attribute [local instance] Arithmetic.ofField

variable {n : Nat} {K : Type} [Field K] [LinearOrder K] {cost : Matrix (Fin n) (Fin n) K} {v : Fin n → K}
  {first owner : Fin n → Option (Fin n)} {start : Fin n} {pred : Fin n → Fin n} {rank : Fin n → Nat}
  {near : Fin n → Prop}

section augment

/-- The rows without a column are the same for both. -/
def SameFree (first owner : Fin n → Option (Fin n)) : Prop :=
  ∀ i, (∀ k, owner k ≠ some i) ↔ ∀ k, first k ≠ some i

/-- On the way back, at a column whose row was taken; `first` tells the rows before. -/
structure Back (cost : Matrix (Fin n) (Fin n) K) (v : Fin n → K) (first : Fin n → Option (Fin n)) (start : Fin n)
    (rank : Fin n → Nat) (near : Fin n → Prop) (state : Augment n) (owner : Fin n → Option (Fin n)) (j : Fin n) : Prop where
  place : state.i ≠ start.val ∧ state.j = j.val
  reached : near j
  vacant : owner j = none
  y : ∀ k, k ≠ j → state.y k = index (owner k)
  x : ∀ k i, owner k = some i → state.x i = k.val
  priced : Priced cost v owner
  before : ∀ k, rank k < rank j → owner k = first k
  free : SameFree first owner

/-- Every column is served again, and the row from the start has one. -/
structure Closed (cost : Matrix (Fin n) (Fin n) K) (v : Fin n → K) (first : Fin n → Option (Fin n)) (start : Fin n)
    (state : Augment n) (owner : Fin n → Option (Fin n)) : Prop where
  y : ∀ k, state.y k = index (owner k)
  x : ∀ k i, owner k = some i → state.x i = k.val
  priced : Priced cost v owner
  free : ∀ i, (∀ k, owner k ≠ some i) ↔ i ≠ start ∧ ∀ k, first k ≠ some i

/-- The rank of the column the way back has come to. -/
def ahead (start : Fin n) (rank : Fin n → Nat) (state : Augment n) : Nat :=
  if state.i = start.val then 0
  else if inside : state.j.toNat < n then rank ⟨state.j.toNat, inside⟩ + 1 else 0

variable {state : Augment n} {j : Fin n}

theorem Back.ahead_eq (back : Back cost v first start rank near state owner j) : ahead start rank state = rank j + 1 := by
  have inside : state.j.toNat < n := by
    rw [back.place.2, Int.toNat_natCast]
    exact j.isLt
  rw [ahead, if_neg back.place.1, dif_pos inside]
  have same : (⟨state.j.toNat, inside⟩ : Fin n) = j := Fin.ext (by simp [back.place.2])
  rw [same]

variable [IsStrictOrderedRing K]

/-- The way back ends at the row it started from. -/
theorem Back.close (back : Back cost v first start rank near state owner j) (alone : ∀ k, first k ≠ some start)
    (lowest : Lowest cost v start j) (next : Int) :
    Closed cost v first start ⟨start.val, next, Function.update state.x start j.val, Function.update state.y j start.val⟩
      (Function.update owner j (some start)) := by
  have free : ∀ k, owner k ≠ some start := (back.free start).mpr alone
  refine ⟨fun k => ?_, fun k i owned => ?_, back.priced.assign free (fun k => le_rfl) (fun k _ => rfl) lowest,
    fun i => ⟨fun missing => ⟨?_, (back.free i).mp fun k owned => ?_⟩, fun missing k owned => ?_⟩⟩
  · dsimp only
    by_cases here : k = j
    · rw [here, Function.update_self, Function.update_self, index_some]
    · rw [Function.update_of_ne here, Function.update_of_ne here, back.y k here]
  · dsimp only
    by_cases here : k = j
    · rw [here, Function.update_self] at owned
      cases owned
      rw [here, Function.update_self]
    · rw [Function.update_of_ne here] at owned
      have apart : i ≠ start := fun same => free k (same ▸ owned)
      rw [Function.update_of_ne apart, back.x k i owned]
  · intro same
    exact missing j (by rw [same, Function.update_self])
  · have here : k ≠ j := fun same => by rw [same, back.vacant] at owned; cases owned
    exact missing k (by rw [Function.update_of_ne here, owned])
  · by_cases here : k = j
    · rw [here, Function.update_self] at owned
      cases owned
      exact missing.1 rfl
    · rw [Function.update_of_ne here] at owned
      exact (back.free i).mpr missing.2 k owned

/-- The row gives up its column `k` for `j`, and the way goes on from `k`. -/
theorem Back.pass (back : Back cost v first start rank near state owner j) {i k : Fin n} (apart : i ≠ start)
    (lowest : Lowest cost v i j) (reached : near k) (closer : rank k < rank j) (owned : owner k = some i) :
    Back cost v first start rank near
      ⟨i.val, k.val, Function.update state.x i j.val, Function.update state.y j i.val⟩
      (Function.update (Function.update owner k none) j (some i)) k := by
  have other : k ≠ j := fun same => by rw [same] at closer; exact lt_irrefl _ closer
  have kept {l m : Fin n} (first : l ≠ j) (taken : Function.update (Function.update owner k none) j (some i) l = some m) :
      l ≠ k ∧ owner l = some m := by
    rw [Function.update_of_ne first] at taken
    by_cases same : l = k
    · rw [same, Function.update_self] at taken
      cases taken
    · exact ⟨same, by rwa [Function.update_of_ne same] at taken⟩
  have free : ∀ l, Function.update owner k none l ≠ some i := by
    intro l taken
    by_cases same : l = k
    · rw [same, Function.update_self] at taken
      cases taken
    · rw [Function.update_of_ne same] at taken
      exact same (back.priced.distinct l k i taken owned)
  refine ⟨⟨fun same => apart (Fin.ext (Int.natCast_inj.mp same)), rfl⟩, reached, ?_, fun l away => ?_, fun l m taken => ?_,
    (back.priced.release k).assign free (fun l => le_rfl) (fun l _ => rfl) lowest, fun l nearer => ?_, fun m => ?_⟩
  · rw [Function.update_of_ne other, Function.update_self]
  · dsimp only
    by_cases here : l = j
    · rw [here, Function.update_self, Function.update_self, index_some]
    · rw [Function.update_of_ne here, Function.update_of_ne here, Function.update_of_ne away, back.y l here]
  · dsimp only
    by_cases here : l = j
    · rw [here, Function.update_self] at taken
      cases taken
      rw [here, Function.update_self]
    · obtain ⟨away, had⟩ := kept here taken
      have different : m ≠ i := fun same => away (back.priced.distinct l k i (same ▸ had) owned)
      rw [Function.update_of_ne different, back.x l m had]
  · have away : l ≠ k := fun same => by rw [same] at nearer; exact lt_irrefl _ nearer
    have here : l ≠ j := fun same => by rw [same] at nearer; exact lt_asymm nearer closer
    rw [Function.update_of_ne here, Function.update_of_ne away]
    exact back.before l (nearer.trans closer)
  · refine Iff.trans ⟨fun missing l had => ?_, fun missing l taken => ?_⟩ (back.free m)
    · have here : l ≠ j := fun same => by rw [same, back.vacant] at had; cases had
      by_cases away : l = k
      · rw [away, owned] at had
        exact missing j (by rw [Function.update_self, had])
      · exact missing l (by rw [Function.update_of_ne here, Function.update_of_ne away, had])
    · by_cases here : l = j
      · rw [here, Function.update_self] at taken
        cases taken
        exact missing k owned
      · exact missing l (kept here taken).2

theorem augmentRound_ends (leads : Leads cost v first start pred rank near) (alone : ∀ k, first k ≠ some start)
    (held : (∃ owner j, Back cost v first start rank near state owner j) ∨
      state.i = start.val ∧ ∃ owner, Closed cost v first start state owner) :
    Ends (augmentRound start.val (fun k => ((pred k).val : Int)) state) (Turn.Meets
      (fun next => ((∃ owner j, Back cost v first start rank near next owner j) ∨
        next.i = start.val ∧ ∃ owner, Closed cost v first start next owner) ∧
          ahead start rank next < ahead start rank state)
      fun result => ∃ owner, Closed cost v first start result owner) := by
  unfold augmentRound
  rcases held with ⟨owner, j, back⟩ | ⟨done, closed⟩
  · rw [if_pos back.place.1, back.place.2, back.ahead_eq]
    simp only [fetch_inside, store_inside, pure_bind]
    have lowest := leads.lowest j back.reached
    rcases leads.back j back.reached with last | ⟨k, reached, closer, taken⟩
    · rw [last] at lowest ⊢
      exact .pure ⟨.inr ⟨rfl, _, back.close alone lowest _⟩, by rw [ahead, if_pos rfl]; omega⟩
    · have owned : owner k = some (pred j) := (back.before k closer).trans taken
      have apart : pred j ≠ start := fun same => alone k (same ▸ taken)
      rw [back.x k _ owned]
      have next := back.pass apart lowest reached closer owned
      exact .pure ⟨.inl ⟨_, k, next⟩, by rw [next.ahead_eq]; omega⟩
  · rw [if_neg (not_not.mpr done)]
    exact .pure closed

/-- Following the way back gives the row from the start a column. -/
theorem augment_ends {solver : Solver K n} {j : Fin n} (way : Way cost v first start pred rank near j)
    (tells : Tells solver first) (alone : ∀ k, first k ≠ some start) :
    Ends (loop (augmentRound start.val fun k => ((pred k).val : Int)) ⟨-1, j.val, solver.x, solver.y⟩)
      fun result => ∃ owner, Closed cost v first start result owner := by
  refine Ends.loop (measure (ahead start rank)).wf (fun state => (∃ owner j, Back cost v first start rank near state owner j) ∨
    state.i = start.val ∧ ∃ owner, Closed cost v first start state owner)
    (fun state held => augmentRound_ends way.toLeads alone held) (.inl ⟨first, j, ?_⟩)
  exact ⟨⟨by dsimp only; omega, rfl⟩, way.reached, way.vacant, fun k _ => tells.y k, tells.x, way.priced,
    fun k _ => rfl, fun i => Iff.rfl⟩

end augment

section solver

variable [IsStrictOrderedRing K]

/-- What holds before the round for the free row at position `k`. -/
def Serving (cost : Matrix (Fin n) (Fin n) K) (nFreeRows k : Nat) (solver : Solver K n) : Prop :=
  ∃ owner rows, Priced cost solver.v owner ∧ Tells solver owner ∧ Free owner rows ∧ Queued solver.freeRows k rows ∧
    k + rows.length = nFreeRows

theorem augmentRow_ends {nFreeRows k : Nat} {solver : Solver K n} (before : k < nFreeRows)
    (serving : Serving cost nFreeRows k solver) :
    Ends (augmentRow cost solver k) (Serving cost nFreeRows (k + 1)) := by
  obtain ⟨owner, rows, priced, tells, free, queued, count⟩ := serving
  cases rows with
  | nil =>
    rw [List.length_nil] at count
    omega
  | cons start rest =>
    obtain ⟨⟨inside, row⟩, queued⟩ := queued
    have fetched : fetch solver.freeRows k = pure (start.val : Int) := by
      rw [← row]
      exact fetch_inside solver.freeRows ⟨k, inside⟩
    have alone : ∀ l, owner l ≠ some start := (free.mem start).mp List.mem_cons_self
    obtain ⟨fresh, nodup⟩ := List.nodup_cons.mp free.nodup
    unfold augmentRow
    rw [fetched, pure_bind]
    refine (findPathDense_ends priced tells.y alone).bind fun result found => ?_
    obtain ⟨pred, rank, near, j, final, preds, way⟩ := found
    obtain ⟨final', v, preds'⟩ := result
    dsimp only at final preds way ⊢
    subst final preds
    refine (augment_ends way tells alone).bind fun path closed => .pure ?_
    obtain ⟨later, closed⟩ := closed
    refine ⟨later, rest, closed.priced, ⟨closed.y, closed.x⟩, ⟨nodup, fun i => ?_⟩, queued, ?_⟩
    · rw [closed.free i, ← free.mem i, List.mem_cons]
      constructor
      · intro member
        exact ⟨fun same => fresh (same ▸ member), .inr member⟩
      · intro found
        exact found.2.resolve_left found.1
    · rw [List.length_cons] at count
      omega

/-- What the solver returns: 0 and two inverse permutations of least cost. -/
structure Solved (cost : Matrix (Fin n) (Fin n) K) (solution : Solution n) (places : Equiv.Perm (Fin n)) : Prop where
  ret : solution.ret = 0
  x : ∀ i, solution.x i = (places i).val
  y : ∀ j, solution.y j = (places.symm j).val
  least : ∀ other : Equiv.Perm (Fin n), ∑ i, cost i (places i) ≤ ∑ i, cost i (other i)

theorem Tells.solved {solver : Solver K n} (tells : Tells solver owner) (priced : Priced cost solver.v owner)
    (free : Free owner []) : ∃ places, Solved cost ⟨0, solver.x, solver.y⟩ places := by
  have complete (i) : ∃ j, owner j = some i := by
    by_contra missing
    push Not at missing
    exact List.not_mem_nil ((free.mem i).mpr missing)
  obtain ⟨places, owned⟩ := places_of_complete complete
  refine ⟨places, rfl, fun i => tells.x _ i ?_, fun j => ?_, priced.least owned⟩
  · rw [owned, Equiv.symm_apply_apply]
  · exact (tells.y j).trans (by rw [owned, index_some])

theorem caDense_ends {nFreeRows : Nat} {solver : Solver K n} {rows : List (Fin n)}
    (stage : Stage cost nFreeRows solver owner rows) :
    Ends (caDense cost nFreeRows solver) fun result => result.1 = 0 ∧ ∃ owner, Priced cost result.2.v owner ∧
      Tells result.2 owner ∧ Free owner [] := by
  unfold caDense
  refine (Ends.range (Serving cost nFreeRows) (Nat.zero_le nFreeRows) (fun k solver _ before => augmentRow_ends before)
    ⟨owner, rows, stage.priced, stage.tells, stage.free, stage.queued, (Nat.zero_add _).trans stage.count.symm⟩).bind
    fun solver served => .pure ⟨rfl, ?_⟩
  obtain ⟨owner, rows, priced, tells, free, _, count⟩ := served
  have none : rows = [] := List.eq_nil_of_length_eq_zero (by omega)
  exact ⟨owner, priced, tells, none ▸ free⟩

/-- The solver ends in range, on every square matrix of costs between 0 and 1. -/
theorem lapjvInternal_ends (some : 0 < n) (entries : ∀ i j, 0 ≤ cost i j ∧ cost i j ≤ 1) :
    Ends (lapjvInternal cost) fun solution => ∃ places, Solved cost solution places := by
  unfold lapjvInternal
  refine (ccrrtDense_ends some entries).bind fun reduced stage => ?_
  obtain ⟨ret, solver⟩ := reduced
  dsimp only at stage ⊢
  refine (Ends.range (fun _ (state : Nat × Solver K n) => ∃ owner rows, Stage cost state.1 state.2 owner rows)
    (Nat.zero_le 2) (fun k state _ _ stage => ?_) stage).bind fun state stage => ?_
  · obtain ⟨ret, solver⟩ := state
    obtain ⟨owner, rows, stage⟩ := stage
    dsimp only at stage ⊢
    split
    · exact carrDense_ends entries stage
    · exact .pure ⟨owner, rows, stage⟩
  · obtain ⟨ret, solver⟩ := state
    obtain ⟨owner, rows, stage⟩ := stage
    dsimp only at stage ⊢
    split
    · refine (caDense_ends stage).bind fun result ended => .pure ?_
      obtain ⟨zero, owner, priced, tells, free⟩ := ended
      rw [zero]
      exact tells.solved priced free
    · next zero =>
      have count := stage.count
      have none : rows = [] := List.eq_nil_of_length_eq_zero (by omega)
      have returned : ret = 0 := by omega
      subst returned
      exact .pure (stage.tells.solved stage.priced (none ▸ stage.free))

end solver

end Yolov5Rknn.Lapjv

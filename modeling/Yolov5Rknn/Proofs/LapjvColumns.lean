import Yolov5Rknn.Lapjv
import Yolov5Rknn.Logic.Augmenting
import Yolov5Rknn.Logic.Folds

/-! The column reduction of the solver in exact arithmetic: every column takes its least
cost as price and one row with that cost; the rows left over are listed as free. -/

namespace Yolov5Rknn.Lapjv
open Program Folds Augmenting

attribute [local instance] Arithmetic.ofField

variable {n : Nat}

/-- An entry of `y` for the row of a column. -/
def index (row : Option (Fin n)) : Int := row.elim (-1) fun i => i.val

@[simp] theorem index_none : index (none : Option (Fin n)) = -1 := rfl

@[simp] theorem index_some (i : Fin n) : index (some i) = i.val := rfl

theorem index_neg_iff {row : Option (Fin n)} : index row < 0 ↔ row = none := by
  cases row <;> simp

/-- The cells from `start` on are these rows. -/
def Queued (cells : Fin n → Int) : Nat → List (Fin n) → Prop
  | _, [] => True
  | start, i :: rest => (∃ inside : start < n, cells ⟨start, inside⟩ = i.val) ∧ Queued cells (start + 1) rest

/-- The cells before and behind the queue may change. -/
theorem Queued.other {cells : Fin n → Int} {start : Nat} {rows : List (Fin n)} (queued : Queued cells start rows)
    {position : Fin n} (apart : position.val < start ∨ start + rows.length ≤ position.val) (value : Int) :
    Queued (Function.update cells position value) start rows := by
  induction rows generalizing start with
  | nil => trivial
  | cons i rest ih =>
    obtain ⟨⟨inside, same⟩, later⟩ := queued
    rw [List.length_cons] at apart
    refine ⟨⟨inside, ?_⟩, ih later (by omega)⟩
    rw [Function.update_of_ne (by simp [Fin.ext_iff]; omega), same]

theorem Queued.append {cells : Fin n → Int} {start : Nat} {rows : List (Fin n)} (queued : Queued cells start rows)
    {i : Fin n} (inside : start + rows.length < n) (same : cells ⟨start + rows.length, inside⟩ = i.val) :
    Queued cells start (rows ++ [i]) := by
  induction rows generalizing start with
  | nil => exact ⟨⟨inside, same⟩, trivial⟩
  | cons k rest ih =>
    obtain ⟨first, later⟩ := queued
    have shift : start + (k :: rest).length = start + 1 + rest.length := by
      rw [List.length_cons]
      omega
    refine ⟨first, ih later (by omega) ?_⟩
    rw [← same]
    congr 2
    exact shift.symm

/-- The rows without a column, in some order. -/
structure Free (owner : Fin n → Option (Fin n)) (rows : List (Fin n)) : Prop where
  nodup : rows.Nodup
  mem : ∀ i, i ∈ rows ↔ ∀ j, owner j ≠ some i

/-- `x` and `y` tell the rows of the columns; `x` may tell more. -/
structure Tells {K : Type} (solver : Solver K n) (owner : Fin n → Option (Fin n)) : Prop where
  y : ∀ j, solver.y j = index (owner j)
  x : ∀ j i, owner j = some i → solver.x i = j.val

section claim

variable {K : Type} {least : Fin n → Fin n} {solver : Solver K n}

/-- What the `do` loop knows when some columns are still to come. -/
structure Claimed (least : Fin n → Fin n) (v : Fin n → K) (rest : List (Fin n)) (solver : Solver K n)
    (owner : Fin n → Option (Fin n)) : Prop where
  v : solver.v = v
  ahead : ∀ j ∈ rest, solver.y j = (least j).val ∧ owner j = none
  y : ∀ j, j ∉ rest → solver.y j = index (owner j)
  x : ∀ j i, owner j = some i → least j = i ∧ solver.x i = j.val
  missing : ∀ i, (∀ j, owner j ≠ some i) → solver.x i = -1

theorem claimColumn_ends {v : Fin n → K} {j : Fin n} {rest : List (Fin n)} {unique : Fin n → Bool}
    {owner : Fin n → Option (Fin n)} (fresh : j ∉ rest) (claimed : Claimed least v (j :: rest) solver owner) :
    Ends (claimColumn (solver, unique) j) fun next => ∃ owner, Claimed least v rest next.1 owner := by
  obtain ⟨row, vacant⟩ := claimed.ahead j List.mem_cons_self
  unfold claimColumn
  simp only [row, fetch_inside, store_inside, pure_bind]
  have other {k : Fin n} (member : k ∈ rest) : k ≠ j := fun equal => fresh (equal ▸ member)
  split
  · next negative =>
    have free : ∀ k, owner k ≠ some (least j) := by
      intro k owned
      rw [(claimed.x k _ owned).2] at negative
      omega
    refine .pure ⟨Function.update owner j (some (least j)), claimed.v, fun k member => ?_, fun k passed => ?_,
      fun k i owned => ?_, fun i missing => ?_⟩
    · rw [Function.update_of_ne (other member)]
      exact claimed.ahead k (List.mem_cons_of_mem _ member)
    · by_cases equal : k = j
      · subst equal
        rw [Function.update_self, index_some, row]
      · rw [Function.update_of_ne equal]
        exact claimed.y k (by simp [equal, passed])
    · by_cases equal : k = j
      · subst equal
        rw [Function.update_self] at owned
        cases owned
        exact ⟨rfl, Function.update_self _ _ _⟩
      · rw [Function.update_of_ne equal] at owned
        have apart : i ≠ least j := fun same => free k (same ▸ owned)
        exact ⟨(claimed.x k i owned).1, (Function.update_of_ne apart _ _).trans (claimed.x k i owned).2⟩
    · have apart : i ≠ least j := fun same => missing j (by rw [same, Function.update_self])
      refine (Function.update_of_ne apart _ _).trans (claimed.missing i fun k owned => missing k ?_)
      by_cases equal : k = j
      · rw [equal, vacant] at owned
        cases owned
      · rwa [Function.update_of_ne equal]
  · refine .pure ⟨owner, claimed.v, fun k member => ?_, fun k passed => ?_, claimed.x, claimed.missing⟩
    · dsimp only
      rw [Function.update_of_ne (other member)]
      exact claimed.ahead k (List.mem_cons_of_mem _ member)
    · by_cases equal : k = j
      · subst equal
        dsimp only
        rw [Function.update_self, vacant, index_none]
      · dsimp only
        rw [Function.update_of_ne equal]
        exact claimed.y k (by simp [equal, passed])

/-- The `do` loop gives every row the first of its columns that comes. -/
theorem claims_end {v : Fin n → K} {order : List (Fin n)} (distinct : order.Nodup) (all : ∀ j, j ∈ order)
    (x : solver.x = fun _ => -1) (y : ∀ j, solver.y j = (least j).val) (same : solver.v = v) :
    Ends (order.foldlM claimColumn (solver, fun _ => true)) fun next => ∃ owner, Claimed least v [] next.1 owner := by
  have begins : Claimed least v order solver fun _ => none :=
    ⟨same, fun j _ => ⟨y j, rfl⟩, fun j missing => absurd (all j) missing, fun j i owned => absurd owned (by simp),
      fun i _ => congrFun x i⟩
  refine (Ends.foldlM (fun rest (state : Solver K n × (Fin n → Bool)) =>
    rest.Nodup ∧ ∃ owner, Claimed least v rest state.1 owner) (fun j rest state held => ?_)
    ⟨distinct, _, begins⟩).imp fun next held => held.2
  obtain ⟨nodup, owner, claimed⟩ := held
  rw [List.nodup_cons] at nodup
  exact (claimColumn_ends nodup.1 claimed).imp fun next held => ⟨nodup.2, held⟩

end claim

variable {K : Type} [Field K] [LinearOrder K]

/-- As long as a column has no row, prices do not fall far; its own has not fallen. -/
def Bounded (v : Fin n → K) (owner : Fin n → Option (Fin n)) : Prop :=
  ∀ u, owner u = none → 0 ≤ v u ∧ ∀ j, -1 ≤ v j

/-- What holds between the phases. -/
structure Stage (cost : Matrix (Fin n) (Fin n) K) (nFreeRows : Nat) (solver : Solver K n)
    (owner : Fin n → Option (Fin n)) (rows : List (Fin n)) : Prop where
  priced : Priced cost solver.v owner
  bounded : Bounded solver.v owner
  tells : Tells solver owner
  free : Free owner rows
  queued : Queued solver.freeRows 0 rows
  count : nFreeRows = rows.length

section minima

variable {cost : Matrix (Fin n) (Fin n) K}

theorem lowerColumn_other (cost : Matrix (Fin n) (Fin n) K) (i : Fin n) (solver : Solver K n) {j k : Fin n} (other : k ≠ j) :
    (lowerColumn cost i solver j).v k = solver.v k ∧ (lowerColumn cost i solver j).y k = solver.y k := by
  unfold lowerColumn
  split
  · exact ⟨Function.update_of_ne other _ _, Function.update_of_ne other _ _⟩
  · exact ⟨rfl, rfl⟩

/-- One row against all columns. -/
theorem lowerRow (cost : Matrix (Fin n) (Fin n) K) (i : Fin n) (solver : Solver K n) :
    let next := (List.finRange n).foldl (lowerColumn cost i) solver
    next.x = solver.x ∧ ∀ j, next.v j ≤ cost i j ∧ next.v j ≤ solver.v j ∧
      ((next.v j = solver.v j ∧ next.y j = solver.y j) ∨ (next.v j = cost i j ∧ next.y j = i.val)) := by
  have run := foldl_holds (lowerColumn cost i)
    (fun rest next => next.x = solver.x ∧
      (∀ j ∈ rest, next.v j = solver.v j ∧ next.y j = solver.y j) ∧
      ∀ j, j ∉ rest → next.v j ≤ cost i j ∧ next.v j ≤ solver.v j ∧
        ((next.v j = solver.v j ∧ next.y j = solver.y j) ∨ (next.v j = cost i j ∧ next.y j = i.val)))
    (List.nodup_finRange n) ⟨rfl, fun _ _ => ⟨rfl, rfl⟩, fun j missing => absurd (List.mem_finRange j) missing⟩ ?_
  · exact ⟨run.1, fun j => run.2.2 j List.not_mem_nil⟩
  · intro j rest next fresh held
    obtain ⟨same, later, earlier⟩ := held
    have here := later j List.mem_cons_self
    refine ⟨?_, fun k member => ?_, fun k passed => ?_⟩
    · rw [← same]
      unfold lowerColumn
      split <;> rfl
    · have other : k ≠ j := fun equal => fresh (equal ▸ member)
      obtain ⟨value, row⟩ := lowerColumn_other cost i next other
      rw [value, row]
      exact later k (List.mem_cons_of_mem _ member)
    · by_cases equal : k = j
      · subst equal
        unfold lowerColumn
        split
        · next less =>
          rw [here.1] at less
          simp only [Function.update_self]
          exact ⟨le_rfl, less.le, .inr (by simp)⟩
        · next not =>
          rw [here.1] at not
          rw [here.1, here.2]
          exact ⟨not_lt.mp not, le_rfl, .inl ⟨rfl, rfl⟩⟩
      · obtain ⟨value, row⟩ := lowerColumn_other cost i next equal
        rw [value, row]
        exact earlier k (by simp [equal, passed])

/-- Every column has its least cost as price, and a row where it is attained. -/
theorem columnMinima_least (some : 0 < n) (small : ∀ i j, cost i j < 1000000) :
    ∃ least : Fin n → Fin n, (columnMinima cost).x = (fun _ => -1) ∧
      ∀ j, (columnMinima cost).y j = (least j).val ∧ (columnMinima cost).v j = cost (least j) j ∧
        ∀ i, cost (least j) j ≤ cost i j := by
  let holds (rest : List (Fin n)) (solver : Solver K n) : Prop :=
    solver.x = (fun _ => -1) ∧ ∀ j, (∀ i, i ∉ rest → solver.v j ≤ cost i j) ∧
      (solver.v j = 1000000 ∨ ∃ i : Fin n, solver.y j = i.val ∧ solver.v j = cost i j)
  have begins : holds (List.finRange n) ⟨fun _ => 0, fun _ => -1, fun _ => 0, fun _ => 1000000⟩ :=
    ⟨rfl, fun j => ⟨fun i missing => absurd (List.mem_finRange i) missing, .inl rfl⟩⟩
  have run : holds [] (columnMinima cost) := by
    refine foldl_holds _ holds (List.nodup_finRange n) begins fun i rest solver _ held => ?_
    obtain ⟨x, columns⟩ := lowerRow cost i solver
    refine ⟨x.trans held.1, fun j => ⟨fun k passed => ?_, ?_⟩⟩
    · by_cases equal : k = i
      · exact equal ▸ (columns j).1
      · exact (columns j).2.1.trans ((held.2 j).1 k (by simp [equal, passed]))
    · rcases (columns j).2.2 with ⟨value, row⟩ | ⟨value, row⟩
      · rw [value, row]
        exact (held.2 j).2
      · exact .inr ⟨i, row, value⟩
  have attained (j) : ∃ i : Fin n, (columnMinima cost).y j = i.val ∧ (columnMinima cost).v j = cost i j := by
    refine (run.2 j).2.resolve_left fun large => ?_
    have first := (run.2 j).1 ⟨0, some⟩ List.not_mem_nil
    rw [large] at first
    exact absurd (small ⟨0, some⟩ j) (not_lt.mpr first)
  choose least row value using attained
  refine ⟨least, run.1, fun j => ⟨row j, value j, fun i => ?_⟩⟩
  rw [← value j]
  exact (run.2 j).1 i List.not_mem_nil

end minima

section transfer

variable {cost : Matrix (Fin n) (Fin n) K} {v : Fin n → K} {owner : Fin n → Option (Fin n)}

/-- What the last loop knows when some rows are still to come. -/
structure Transferred (cost : Matrix (Fin n) (Fin n) K) (minima : Fin n → K) (owner : Fin n → Option (Fin n))
    (rest : List (Fin n)) (nFreeRows : Nat) (solver : Solver K n) (rows : List (Fin n)) : Prop where
  priced : Priced cost solver.v owner
  bounded : Bounded solver.v owner
  tells : Tells solver owner
  missing : ∀ i, (∀ j, owner j ≠ some i) → solver.x i = -1
  below : ∀ j, solver.v j ≤ minima j
  ahead : ∀ j, ∀ i ∈ rest, owner j = some i → solver.v j = cost i j
  nodup : rows.Nodup
  mem : ∀ i, i ∈ rows ↔ i ∉ rest ∧ ∀ j, owner j ≠ some i
  queued : Queued solver.freeRows 0 rows
  count : nFreeRows = rows.length

variable {minima : Fin n → K} {i : Fin n} {rest rows : List (Fin n)} {nFreeRows : Nat} {solver : Solver K n}

theorem not_mem_iff {k : Fin n} (fresh : i ∉ rest) : k ∉ rest ↔ k = i ∨ k ∉ i :: rest := by
  by_cases same : k = i
  · simp [same, fresh]
  · simp [same]

theorem length_lt_of_nodup (nodup : rows.Nodup) (missing : i ∉ rows) : rows.length < n := by
  have bound := (List.nodup_cons.mpr ⟨missing, nodup⟩).length_le_card
  rwa [List.length_cons, Fintype.card_fin] at bound

/-- A row without a column is listed. -/
theorem Transferred.free (held : Transferred cost minima owner (i :: rest) nFreeRows solver rows)
    (fresh : i ∉ rest) (free : ∀ j, owner j ≠ some i) : ∃ inside : nFreeRows < n,
    Transferred cost minima owner rest (nFreeRows + 1)
      { solver with freeRows := Function.update solver.freeRows ⟨nFreeRows, inside⟩ i.val } (rows ++ [i]) := by
  have absent : i ∉ rows := fun member => ((held.mem i).mp member).1 List.mem_cons_self
  have inside : nFreeRows < n := held.count ▸ length_lt_of_nodup held.nodup absent
  refine ⟨inside, held.priced, held.bounded, ⟨held.tells.y, held.tells.x⟩, held.missing, held.below,
    fun j k member => held.ahead j k (List.mem_cons_of_mem _ member), ?_, fun k => ?_, ?_, ?_⟩
  · exact List.nodup_append.mpr ⟨held.nodup, List.nodup_singleton i, fun k member l single same => by
      rw [List.mem_singleton] at single
      exact absent (single ▸ same ▸ member)⟩
  · rw [List.mem_append, List.mem_singleton, held.mem k, not_mem_iff fresh]
    constructor
    · intro found
      rcases found with ⟨passed, missing⟩ | rfl
      · exact ⟨.inr passed, missing⟩
      · exact ⟨.inl rfl, free⟩
    · intro ⟨passed, missing⟩
      rcases passed with rfl | passed
      · exact .inr rfl
      · exact .inl ⟨passed, missing⟩
  · have count := held.count
    subst count
    refine Queued.append (held.queued.other (.inr (Nat.zero_add _).le) _) ((Nat.zero_add _).symm ▸ inside) ?_
    simp
  · rw [List.length_append, List.length_singleton, held.count]

/-- A row with a column is not. -/
theorem Transferred.mem_owned (held : Transferred cost minima owner (i :: rest) nFreeRows solver rows)
    (fresh : i ∉ rest) {j : Fin n} (owned : owner j = some i) (k : Fin n) :
    k ∈ rows ↔ k ∉ rest ∧ ∀ l, owner l ≠ some k := by
  rw [held.mem k, not_mem_iff fresh]
  constructor
  · intro ⟨passed, missing⟩
    exact ⟨.inr passed, missing⟩
  · intro ⟨passed, missing⟩
    rcases passed with rfl | passed
    · exact absurd owned (missing j)
    · exact ⟨passed, missing⟩

variable [IsStrictOrderedRing K]

theorem leastBeside_least (i j : Fin n) (nonneg : ∀ k, 0 ≤ cost i k - v k) :
    0 ≤ leastBeside cost v i j.val ∧ ∀ k, k ≠ j → leastBeside cost v i j.val ≤ cost i k - v k := by
  have bounds := foldl_least (fun k => cost i k - v k) (fun k : Fin n => (k.val : Int) ≠ j.val)
    (List.finRange n) 1000000
  refine ⟨?_, fun k other => bounds.2.1 k (List.mem_finRange k) (by simpa [Fin.ext_iff] using other)⟩
  rcases bounds.2.2 with top | ⟨k, _, _, same⟩
  · exact (show (0 : K) ≤ 1000000 by norm_num).trans_eq top.symm
  · exact (nonneg k).trans_eq same.symm

theorem fallen_le {m : K} (nonneg : 0 ≤ m) (j k : Fin n) : Function.update v j (v j - m) k ≤ v k := by
  by_cases equal : k = j
  · rw [equal, Function.update_self]
    linarith
  · rw [Function.update_of_ne equal]

/-- The reduction transfer in a row whose column has reduced cost zero. -/
theorem transfer_prices {i j : Fin n} (priced : Priced cost v owner) (bounded : Bounded v owner)
    (entries : ∀ i j, 0 ≤ cost i j ∧ cost i j ≤ 1) (nonneg : ∀ k, 0 ≤ cost i k - v k)
    (owned : owner j = some i) (exact : v j = cost i j) :
    let lowered := Function.update v j (v j - leastBeside cost v i j.val)
    Priced cost lowered owner ∧ Bounded lowered owner := by
  obtain ⟨positive, bound⟩ := leastBeside_least i j nonneg
  set m := leastBeside cost v i j.val
  have same (k) (other : k ≠ j) : Function.update v j (v j - m) k = v k := Function.update_of_ne other _ _
  constructor
  · refine priced.cheapen (fallen_le positive j) same fun row taken k => ?_
    rw [owned] at taken
    cases taken
    by_cases equal : k = j
    · rw [equal]
    · have := bound k equal
      rw [same k equal, Function.update_self]
      linarith
  · intro u missing
    have apart : u ≠ j := fun equal => by rw [equal, owned] at missing; cases missing
    obtain ⟨price, floor⟩ := bounded u missing
    refine ⟨(same u apart).symm ▸ price, fun k => ?_⟩
    by_cases equal : k = j
    · have := bound u apart
      have := (entries i u).2
      have := (entries i j).1
      rw [equal, Function.update_self]
      linarith
    · rw [same k equal]
      exact floor k

theorem Transferred.lower (held : Transferred cost minima owner (i :: rest) nFreeRows solver rows) (fresh : i ∉ rest)
    (entries : ∀ i j, 0 ≤ cost i j ∧ cost i j ≤ 1) (least : ∀ i j, minima j ≤ cost i j) {j : Fin n}
    (owned : owner j = some i) : Transferred cost minima owner rest nFreeRows
      { solver with v := Function.update solver.v j (solver.v j - leastBeside cost solver.v i j.val) } rows := by
  have here : solver.v j = cost i j := held.ahead j i List.mem_cons_self owned
  have nonneg (k) : 0 ≤ cost i k - solver.v k := sub_nonneg.mpr ((held.below k).trans (least i k))
  obtain ⟨priced, bounded⟩ := transfer_prices held.priced held.bounded entries nonneg owned here
  have fallen := fallen_le (v := solver.v) (leastBeside_least i j nonneg).1 j
  refine ⟨priced, bounded, ⟨held.tells.y, held.tells.x⟩, held.missing, fun k => (fallen k).trans (held.below k),
    fun k row member taken => ?_, held.nodup, held.mem_owned fresh owned, held.queued, held.count⟩
  have apart : k ≠ j := by
    intro equal
    rw [equal, owned] at taken
    cases taken
    exact fresh member
  exact (Function.update_of_ne apart _ _).trans (held.ahead k row (List.mem_cons_of_mem _ member) taken)

theorem transferRow_ends (unique : Fin n → Bool) (fresh : i ∉ rest)
    (entries : ∀ i j, 0 ≤ cost i j ∧ cost i j ≤ 1) (least : ∀ i j, minima j ≤ cost i j)
    (held : Transferred cost minima owner (i :: rest) nFreeRows solver rows) :
    Ends (transferRow cost unique (nFreeRows, solver) i) fun next =>
      ∃ rows, Transferred cost minima owner rest next.1 next.2 rows := by
  unfold transferRow
  dsimp only
  by_cases free : ∀ j, owner j ≠ some i
  · obtain ⟨inside, next⟩ := held.free fresh free
    rw [if_pos (by rw [held.missing i free]; decide)]
    have stored := store_inside solver.freeRows ⟨nFreeRows, inside⟩ (i.val : Int)
    dsimp only at stored
    rw [stored, pure_bind]
    exact .pure ⟨_, next⟩
  · push Not at free
    obtain ⟨j, owned⟩ := free
    have column : solver.x i = j.val := held.tells.x j i owned
    rw [if_neg (by rw [column]; omega)]
    split
    · simp only [column, fetch_inside, store_inside, pure_bind]
      exact .pure ⟨_, held.lower fresh entries least owned⟩
    · exact .pure ⟨rows, held.priced, held.bounded, held.tells, held.missing, held.below,
        fun k row member => held.ahead k row (List.mem_cons_of_mem _ member), held.nodup,
        held.mem_owned fresh owned, held.queued, held.count⟩

end transfer

section reduction

variable [IsStrictOrderedRing K] {cost : Matrix (Fin n) (Fin n) K}

/-- The column reduction ends in range, with the rows it left over listed. -/
theorem ccrrtDense_ends (some : 0 < n) (entries : ∀ i j, 0 ≤ cost i j ∧ cost i j ≤ 1) :
    Ends (ccrrtDense cost) fun next => ∃ owner rows, Stage cost next.1 next.2 owner rows := by
  have small (i j) : cost i j < 1000000 := (entries i j).2.trans_lt (by norm_num)
  obtain ⟨least, x, columns⟩ := columnMinima_least some small
  rw [ccrrtDense, if_neg some.ne']
  have claims := claims_end (v := (columnMinima cost).v) (List.nodup_reverse.mpr (List.nodup_finRange n))
    (fun j => List.mem_reverse.mpr (List.mem_finRange j)) x (fun j => (columns j).1) rfl
  refine claims.bind fun claimed held => ?_
  obtain ⟨owner, held⟩ := held
  obtain ⟨solver, unique⟩ := claimed
  dsimp only at held ⊢
  have minimum (i j) : (columnMinima cost).v j ≤ cost i j := (columns j).2.1.trans_le ((columns j).2.2 i)
  have attained {j i} (owned : owner j = Option.some i) : solver.v j = cost i j := by
    rw [held.v, (columns j).2.1, (held.x j i owned).1]
  have floor (j) : 0 ≤ solver.v j := by
    rw [held.v, (columns j).2.1]
    exact (entries _ _).1
  have priced : Priced cost solver.v owner := by
    refine ⟨fun j k i one two => Fin.ext ?_, fun j i owned k => ?_⟩
    · have same := (held.x j i one).2.symm.trans (held.x k i two).2
      exact_mod_cast same
    · rw [attained owned, sub_self]
      exact sub_nonneg.mpr (held.v ▸ minimum i k)
  have begins : Transferred cost (columnMinima cost).v owner (List.finRange n) 0 solver [] :=
    ⟨priced, fun u _ => ⟨floor u, fun j => (by norm_num : (-1 : K) ≤ 0).trans (floor j)⟩,
      ⟨fun j => held.y j List.not_mem_nil, fun j i owned => (held.x j i owned).2⟩, held.missing,
      fun j => (congrFun held.v j).le, fun j i _ owned => attained owned, List.nodup_nil,
      fun i => by simp, trivial, rfl⟩
  refine (Ends.foldlM (fun rest (state : Nat × Solver K n) => rest.Nodup ∧
    ∃ rows, Transferred cost (columnMinima cost).v owner rest state.1 state.2 rows) (fun i rest state inner => ?_)
    ⟨List.nodup_finRange n, [], begins⟩).imp fun next inner => ?_
  · obtain ⟨nodup, rows, inner⟩ := inner
    rw [List.nodup_cons] at nodup
    exact (transferRow_ends unique nodup.1 entries minimum inner).imp fun next inner => ⟨nodup.2, inner⟩
  · obtain ⟨_, rows, inner⟩ := inner
    exact ⟨owner, rows, inner.priced, inner.bounded, inner.tells, ⟨inner.nodup, fun i => by simp [inner.mem i]⟩,
      inner.queued, inner.count⟩

end reduction

end Yolov5Rknn.Lapjv

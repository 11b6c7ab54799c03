import Yolov5Rknn.Proofs.LapjvColumns

/-! The row reduction of the solver in exact arithmetic. A round gives a free row its
cheapest column and lowers the price of that column to the next best; the row that had
the column is tried again or put off. The counter `rr_cnt` ends the rounds. -/

namespace Yolov5Rknn.Lapjv
open Program Folds Augmenting

attribute [local instance] Arithmetic.ofField

variable {n : Nat}

section queue

variable {owner : Fin n → Option (Fin n)} {rows others : List (Fin n)} {i j : Fin n}

theorem Free.perm (free : Free owner rows) (same : rows.Perm others) : Free owner others :=
  ⟨same.nodup_iff.mp free.nodup, fun i => same.mem_iff.symm.trans (free.mem i)⟩

/-- A free row takes a column, and the row that had it becomes free. -/
theorem Free.assign (free : Free owner (i :: others))
    (distinct : ∀ j k i, owner j = some i → owner k = some i → j = k) :
    Free (Function.update owner j (some i)) ((owner j).toList ++ others) := by
  have alone : ∀ k, owner k ≠ some i := (free.mem i).mp List.mem_cons_self
  have vacant {k : Fin n} (member : k ∈ others) : ∀ l, owner l ≠ some k :=
    (free.mem k).mp (List.mem_cons_of_mem _ member)
  obtain ⟨fresh, nodup⟩ := List.nodup_cons.mp free.nodup
  constructor
  · refine List.nodup_append.mpr ⟨?_, nodup, fun k had l member same => ?_⟩
    · cases owner j <;> simp
    · exact vacant (same ▸ member) j (Option.mem_toList.mp had)
  · intro k
    rw [List.mem_append, Option.mem_toList]
    constructor
    · intro found l
      rcases found with had | member
      · by_cases here : l = j
        · rw [here, Function.update_self]
          intro same
          exact alone j (had.trans same.symm)
        · rw [Function.update_of_ne here]
          exact fun owned => here (distinct l j k owned had)
      · by_cases here : l = j
        · rw [here, Function.update_self]
          intro same
          exact fresh (Option.some.inj same ▸ member)
        · rw [Function.update_of_ne here]
          exact vacant member l
    · intro missing
      by_cases had : owner j = some k
      · exact .inl had
      · refine .inr ?_
        have listed : k ∈ i :: others := by
          refine (free.mem k).mpr fun l owned => ?_
          by_cases here : l = j
          · exact had (here ▸ owned)
          · exact missing l ((Function.update_of_ne here _ _).trans owned)
        refine (List.mem_cons.mp listed).resolve_left fun same => ?_
        exact missing j (by rw [same, Function.update_self])

variable {K : Type} {solver : Solver K n}

theorem Tells.assign (tells : Tells solver owner) (free : ∀ k, owner k ≠ some i) (j : Fin n) (v : Fin n → K)
    (freeRows : Fin n → Int) :
    Tells ⟨freeRows, Function.update solver.x i j.val, Function.update solver.y j i.val, v⟩
      (Function.update owner j (some i)) := by
  constructor
  · intro k
    by_cases here : k = j
    · subst here
      simp
    · simp only [Function.update_of_ne here]
      exact tells.y k
  · intro k l owned
    by_cases here : k = j
    · subst here
      rw [Function.update_self] at owned
      cases owned
      exact Function.update_self _ _ _
    · rw [Function.update_of_ne here] at owned
      have apart : l ≠ i := fun same => free k (same ▸ owned)
      exact (Function.update_of_ne apart _ _).trans (tells.x k l owned)

/-- The two queues in `free_rows`: the rows put off, and the rows from `current` on. -/
structure Waiting (nFreeRows : Nat) (state : Reduction K n) (postponed rest : List (Fin n)) : Prop where
  done : Queued state.solver.freeRows 0 postponed
  ahead : Queued state.solver.freeRows state.current rest
  count : state.newFreeRows = postponed.length
  total : state.current + rest.length = nFreeRows
  order : postponed.length ≤ state.current
  inside : nFreeRows ≤ n

variable {nFreeRows : Nat} {state : Reduction K n} {postponed rest : List (Fin n)}

theorem Waiting.prices (waiting : Waiting nFreeRows state postponed rest) (v : Fin n → K) :
    Waiting nFreeRows { state with solver := { state.solver with v } } postponed rest :=
  ⟨waiting.done, waiting.ahead, waiting.count, waiting.total, waiting.order, waiting.inside⟩

/-- The queues after a row was taken from `free_rows`. -/
theorem Waiting.take (waiting : Waiting nFreeRows state postponed (i :: others)) (rrCnt : Nat) :
    Waiting nFreeRows { state with current := state.current + 1, rrCnt } postponed others := by
  have total := waiting.total
  have order := waiting.order
  rw [List.length_cons] at total
  exact ⟨waiting.done, waiting.ahead.2, waiting.count, by dsimp only; omega, by dsimp only; omega, waiting.inside⟩

theorem retry_ends (waiting : Waiting nFreeRows state postponed rest) (gap : postponed.length < state.current)
    (row : Option (Fin n)) : Ends (retry (index row) state) fun next =>
      Waiting nFreeRows next postponed (row.toList ++ rest) ∧ next.rrCnt = state.rrCnt ∧
        next.current = state.current - row.toList.length ∧
        next.solver = { state.solver with freeRows := next.solver.freeRows } := by
  unfold retry
  cases row with
  | none =>
    rw [if_neg (by simp)]
    exact .pure ⟨waiting, rfl, rfl, rfl⟩
  | some l =>
    have total := waiting.total
    have inside := waiting.inside
    have within : state.current - 1 < n := by omega
    have position : (state.current : Int) - 1 = (⟨state.current - 1, within⟩ : Fin n).val := by
      dsimp only
      omega
    rw [if_pos (by simp), position, store_inside, pure_bind]
    refine .pure ⟨⟨?_, ⟨⟨within, ?_⟩, ?_⟩, waiting.count, ?_, ?_, inside⟩, rfl, rfl, rfl⟩
    · exact waiting.done.other (.inr (by dsimp only; omega)) _
    · exact Function.update_self _ _ _
    · have later : state.current - 1 + 1 = state.current := by omega
      dsimp only
      rw [later]
      exact waiting.ahead.other (.inl (by dsimp only; omega)) _
    · dsimp only [Option.toList, List.length_append, List.length_singleton]
      simp only [List.length_append, List.length_singleton]
      omega
    · dsimp only
      omega

theorem postpone_ends (waiting : Waiting nFreeRows state postponed rest) (gap : postponed.length < state.current)
    (row : Option (Fin n)) : Ends (postpone (index row) state) fun next =>
      Waiting nFreeRows next (postponed ++ row.toList) rest ∧ next.rrCnt = state.rrCnt ∧
        next.current = state.current ∧ next.solver = { state.solver with freeRows := next.solver.freeRows } := by
  unfold postpone
  cases row with
  | none =>
    rw [if_neg (by simp)]
    have waiting : Waiting nFreeRows state (postponed ++ []) rest := by rwa [List.append_nil]
    exact .pure ⟨waiting, rfl, rfl, rfl⟩
  | some l =>
    have total := waiting.total
    have inside := waiting.inside
    have count := waiting.count
    have within : state.newFreeRows < n := by omega
    have stored := store_inside state.solver.freeRows ⟨state.newFreeRows, within⟩ (index (some l))
    dsimp only at stored
    rw [if_pos (by simp), stored, pure_bind]
    refine .pure ⟨⟨?_, ?_, ?_, total, ?_, inside⟩, rfl, rfl, rfl⟩
    · refine Queued.append (waiting.done.other (.inr (by dsimp only; omega)) _) (by omega) ?_
      have here : (⟨0 + postponed.length, by omega⟩ : Fin n) = ⟨state.newFreeRows, within⟩ := by
        simp [count]
      rw [here]
      exact Function.update_self _ _ _
    · exact waiting.ahead.other (.inl (by dsimp only; omega)) _
    · simp [count]
    · simp only [Option.toList, List.length_append, List.length_singleton]
      omega

@[simp] theorem assign_inside (i j : Fin n) (state : Reduction K n) :
    assign i.val j.val state = pure (.again { state with
      solver := { state.solver with x := Function.update state.solver.x i j.val, y := Function.update state.solver.y j i.val } }) := by
  simp [assign]

end queue

section least

variable {K : Type} [Field K] [LinearOrder K] {numbers : Fin n → K} {rest : List (Fin n)} {least : LeastTwo K}
  {j j1 : Fin n}

/-- `least` holds the least two of the numbers, but for the columns still to come. -/
structure Two (numbers : Fin n → K) (rest : List (Fin n)) (least : LeastTwo K) (j1 : Fin n) : Prop where
  passed : j1 ∉ rest
  first : least.j1 = j1.val ∧ least.v1 = numbers j1
  ordered : numbers j1 ≤ least.v2
  others : ∀ k, k ∉ rest → k ≠ j1 → least.v2 ≤ numbers k
  second : least.j2 = -1 ∨ ∃ j2 : Fin n, least.j2 = j2.val ∧ j2 ≠ j1 ∧ least.v2 = numbers j2

theorem Two.step (two : Two numbers (j :: rest) least j1) (fresh : j ∉ rest) :
    ∃ j1, Two numbers rest (lowerTwo numbers least j) j1 := by
  obtain ⟨passed, ⟨place, value⟩, ordered, others, second⟩ := two
  have apart : j ≠ j1 := fun same => passed (same ▸ List.mem_cons_self)
  have before : j1 ∉ rest := fun member => passed (List.mem_cons_of_mem _ member)
  have older {k : Fin n} (gone : k ∉ rest) (other : k ≠ j) : k ∉ j :: rest := by simp [gone, other]
  unfold lowerTwo
  split
  · next less =>
    split
    · next above =>
      rw [value] at above
      refine ⟨j1, before, ⟨place, value⟩, above, fun k gone other => ?_, .inr ⟨j, rfl, apart, rfl⟩⟩
      by_cases here : k = j
      · rw [here]
      · exact less.le.trans (others k (older gone here) other)
    · next below =>
      rw [value, not_le] at below
      refine ⟨j, fresh, ⟨rfl, rfl⟩, value ▸ below.le, fun k gone other => ?_, .inr ⟨j1, place, apart.symm, value⟩⟩
      by_cases here : k = j1
      · exact (value.trans (congrArg numbers here.symm)).le
      · exact (value.le.trans ordered).trans (others k (older gone other) here)
  · next above =>
    rw [not_lt] at above
    refine ⟨j1, before, ⟨place, value⟩, ordered, fun k gone other => ?_, second⟩
    by_cases here : k = j
    · exact here ▸ above
    · exact others k (older gone here) other

variable {cost : Matrix (Fin n) (Fin n) K} {v : Fin n → K}

theorem leastTwo_ends (i : Fin n) (small : ∀ k, cost i k - v k < 1000000) :
    Ends (leastTwo cost v i.val) fun least => ∃ j1, Two (fun k => cost i k - v k) [] least j1 := by
  obtain ⟨m, rfl⟩ : ∃ m, n = m + 1 := ⟨n - 1, by have := i.isLt; omega⟩
  have first := fetch_inside (fun j => cost i j - v j) (0 : Fin (m + 1))
  have columns : List.finRange (m + 1) = 0 :: (List.finRange (m + 1)).tail := by simp [List.finRange_succ]
  have nodup := List.nodup_finRange (m + 1)
  rw [columns, List.nodup_cons] at nodup
  unfold leastTwo
  rw [rowOf_inside, pure_bind]
  change Ends (fetch (fun j => cost i j - v j) ((0 : Fin (m + 1)).val : Int) >>= _) _
  rw [first, pure_bind]
  have begins : ∃ j1, Two (fun k => cost i k - v k) (List.finRange (m + 1)).tail
      ⟨0, cost i 0 - v 0, -1, 1000000⟩ j1 := by
    refine ⟨0, nodup.1, ⟨rfl, rfl⟩, (small 0).le, fun k gone other => ?_, .inl rfl⟩
    have listed := List.mem_finRange k
    rw [columns, List.mem_cons] at listed
    exact absurd listed (by simp [gone, other])
  exact .pure (foldl_holds _ (fun rest least => ∃ j1, Two (fun k => cost i k - v k) rest least j1) nodup.2 begins
    fun j rest least fresh held => held.elim fun j1 two => two.step fresh)

end least

section round

variable {K : Type} [Field K] [LinearOrder K] {cost : Matrix (Fin n) (Fin n) K} {v : Fin n → K}
  {owner : Fin n → Option (Fin n)} {i j : Fin n}

theorem Bounded.assign (bounded : Bounded v owner) (i j : Fin n) : Bounded v (Function.update owner j (some i)) := by
  intro u missing
  have apart : u ≠ j := fun equal => by rw [equal, Function.update_self] at missing; cases missing
  rw [Function.update_of_ne apart] at missing
  exact bounded u missing

/-- What holds before every round. -/
def Reducing (cost : Matrix (Fin n) (Fin n) K) (nFreeRows : Nat) (state : Reduction K n) : Prop :=
  ∃ owner postponed rest, Priced cost state.solver.v owner ∧ Bounded state.solver.v owner ∧
    Tells state.solver owner ∧ Free owner (postponed ++ rest) ∧ Waiting nFreeRows state postponed rest

/-- The rows not yet tried, and the rounds the counter still allows for one of them. -/
def allowance (nFreeRows : Nat) (state : Reduction K n) : Nat :=
  (nFreeRows - state.current) * (2 ^ 32 + 1) + (2 ^ 32 - (state.rrCnt + 1) % 2 ^ 32)

variable {nFreeRows : Nat} {state : Reduction K n} {solver : Solver K n} {postponed rest : List (Fin n)}

/-- The end of a round in which row `i` gets column `j`. -/
theorem assign_ends {rows : List (Fin n)} (priced : Priced cost state.solver.v (Function.update owner j (some i)))
    (bounded : Bounded state.solver.v (Function.update owner j (some i)))
    (distinct : ∀ j k i, owner j = some i → owner k = some i → j = k) (tells : Tells solver owner)
    (same : state.solver.x = solver.x ∧ state.solver.y = solver.y) (free : Free owner (i :: rows))
    (queues : ((owner j).toList ++ rows).Perm (postponed ++ rest))
    (waiting : Waiting nFreeRows state postponed rest) :
    Ends (assign i.val j.val state) (Turn.Meets (fun next =>
      Reducing cost nFreeRows next ∧ next.current = state.current ∧ next.rrCnt = state.rrCnt) fun _ => False) := by
  rw [assign_inside, same.1, same.2]
  refine .pure ⟨⟨_, postponed, rest, priced, bounded, ?_, (free.assign distinct).perm queues, ?_⟩, rfl, rfl⟩
  · exact tells.assign ((free.mem i).mp List.mem_cons_self) j _ _
  · exact ⟨waiting.done, waiting.ahead, waiting.count, waiting.total, waiting.order, waiting.inside⟩

/-- The former owner of column `j` joined one of the two queues before. -/
theorem queue_assign {program : Prog (Reduction K n)} {done ahead : List (Fin n)} {current : Nat}
    (moves : Ends program fun next => Waiting nFreeRows next done ahead ∧ next.rrCnt = state.rrCnt ∧
      next.current = current ∧ next.solver = { state.solver with freeRows := next.solver.freeRows })
    (queues : ((owner j).toList ++ (postponed ++ rest)).Perm (done ++ ahead))
    (priced : Priced cost state.solver.v (Function.update owner j (some i)))
    (bounded : Bounded state.solver.v (Function.update owner j (some i)))
    (distinct : ∀ j k i, owner j = some i → owner k = some i → j = k) (tells : Tells solver owner)
    (same : state.solver.x = solver.x ∧ state.solver.y = solver.y) (free : Free owner (postponed ++ i :: rest)) :
    Ends (program >>= assign i.val j.val) (Turn.Meets (fun next =>
      Reducing cost nFreeRows next ∧ next.current = current ∧ next.rrCnt = state.rrCnt) fun _ => False) := by
  refine moves.bind fun next kept => ?_
  obtain ⟨waiting, counter, position, fields⟩ := kept
  rw [← counter, ← position]
  refine assign_ends ?_ ?_ distinct tells ?_ (free.perm List.perm_middle) queues waiting
  · rw [fields]
    exact priced
  · rw [fields]
    exact bounded
  · rw [fields]
    exact same

theorem retry_assign (waiting : Waiting nFreeRows state postponed rest) (gap : postponed.length < state.current)
    (priced : Priced cost state.solver.v (Function.update owner j (some i)))
    (bounded : Bounded state.solver.v (Function.update owner j (some i)))
    (distinct : ∀ j k i, owner j = some i → owner k = some i → j = k) (tells : Tells solver owner)
    (same : state.solver.x = solver.x ∧ state.solver.y = solver.y) (free : Free owner (postponed ++ i :: rest)) :
    Ends (retry (index (owner j)) state >>= assign i.val j.val) (Turn.Meets (fun next =>
      Reducing cost nFreeRows next ∧ next.current = state.current - (owner j).toList.length ∧
        next.rrCnt = state.rrCnt) fun _ => False) := by
  apply queue_assign (retry_ends waiting gap (owner j)) _ priced bounded distinct tells same free
  exact List.perm_append_comm_assoc _ _ _

theorem postpone_assign (waiting : Waiting nFreeRows state postponed rest) (gap : postponed.length < state.current)
    (priced : Priced cost state.solver.v (Function.update owner j (some i)))
    (bounded : Bounded state.solver.v (Function.update owner j (some i)))
    (distinct : ∀ j k i, owner j = some i → owner k = some i → j = k) (tells : Tells solver owner)
    (same : state.solver.x = solver.x ∧ state.solver.y = solver.y) (free : Free owner (postponed ++ i :: rest)) :
    Ends (postpone (index (owner j)) state >>= assign i.val j.val) (Turn.Meets (fun next =>
      Reducing cost nFreeRows next ∧ next.current = state.current ∧ next.rrCnt = state.rrCnt) fun _ => False) := by
  apply queue_assign (postpone_ends waiting gap (owner j)) _ priced bounded distinct tells same free
  rw [← List.append_assoc]
  exact List.perm_append_comm.append_right rest

variable [IsStrictOrderedRing K]

/-- The cheapest column becomes as dear as the next one. -/
theorem lower_prices (priced : Priced cost v owner) (bounded : Bounded v owner) (free : ∀ k, owner k ≠ some i)
    (entries : ∀ i j, 0 ≤ cost i j ∧ cost i j ≤ 1) {next : K} (dearer : cost i j - v j ≤ next)
    (others : ∀ k, k ≠ j → next ≤ cost i k - v k) :
    let lowered := Function.update v j (v j - (next - (cost i j - v j)))
    Priced cost lowered (Function.update owner j (some i)) ∧ Bounded lowered (Function.update owner j (some i)) := by
  have same (k) (other : k ≠ j) : Function.update v j (v j - (next - (cost i j - v j))) k = v k :=
    Function.update_of_ne other _ _
  constructor
  · refine priced.assign free (fallen_le (sub_nonneg.mpr dearer) j) same fun k => ?_
    by_cases equal : k = j
    · rw [equal]
    · have := others k equal
      rw [same k equal, Function.update_self]
      linarith
  · intro u missing
    have apart : u ≠ j := fun equal => by rw [equal, Function.update_self] at missing; cases missing
    rw [Function.update_of_ne apart] at missing
    obtain ⟨price, floor⟩ := bounded u missing
    refine ⟨(same u apart).symm ▸ price, fun k => ?_⟩
    by_cases equal : k = j
    · have := others u apart
      have := (entries i u).2
      have := (entries i j).1
      rw [equal, Function.update_self]
      linarith
    · rw [same k equal]
      exact floor k

/-- After the row was taken: another row is the next one, or the counter went on. -/
theorem placeRow_ends {least : LeastTwo K} (waiting : Waiting nFreeRows state postponed rest)
    (gap : postponed.length < state.current) (entries : ∀ i j, 0 ≤ cost i j ∧ cost i j ≤ 1)
    (priced : Priced cost state.solver.v owner) (bounded : Bounded state.solver.v owner) (tells : Tells state.solver owner)
    (free : Free owner (postponed ++ i :: rest)) (two : Two (fun k => cost i k - state.solver.v k) [] least j) :
    Ends (placeRow i.val least state) (Turn.Meets (fun next => Reducing cost nFreeRows next ∧ next.rrCnt = state.rrCnt ∧
      (next.current = state.current ∨ next.current = state.current - 1 ∧ state.rrCnt < 2 ^ 32 - 1)) fun _ => False) := by
  have alone : ∀ k, owner k ≠ some i := (free.mem i).mp (by simp)
  have others := fun k other => two.others k List.not_mem_nil other
  have cheapest : Lowest cost state.solver.v i j := by
    intro k
    by_cases here : k = j
    · rw [here]
    · exact two.ordered.trans (others k here)
  have plain := priced.assign alone (fun k => le_rfl) (fun k _ => rfl) cheapest
  unfold placeRow
  simp only [two.first.1, two.first.2, tells.y, fetch_inside, pure_bind]
  split
  · next few =>
    split
    · simp only [store_inside, pure_bind]
      obtain ⟨lowered, kept⟩ := lower_prices priced bounded alone entries two.ordered others
      have queues := waiting.prices (Function.update state.solver.v j
        (state.solver.v j - (least.v2 - (cost i j - state.solver.v j))))
      refine (retry_assign queues gap lowered kept priced.distinct tells ⟨rfl, rfl⟩ free).imp
        fun turn met => met.imp (fun next moved => ⟨moved.1, moved.2.2, ?_⟩) fun _ => id
      have bits := Nat.mod_lt (state.current * n) (show 0 < 2 ^ 32 by decide)
      have current := moved.2.1
      dsimp only at current
      cases had : owner j with
      | none =>
        rw [had] at current
        exact .inl current
      | some l =>
        rw [had] at current
        exact .inr ⟨current, by omega⟩
    · next same =>
      have equal : least.v2 = cost i j - state.solver.v j := by
        have := two.ordered
        linarith
      split
      · next other =>
        obtain ⟨j2, place, apart, value⟩ := two.second.resolve_left fun missing => by omega
        have second : Lowest cost state.solver.v i j2 := by
          intro k
          rw [← value, equal]
          exact cheapest k
        simp only [place, tells.y, fetch_inside, pure_bind]
        exact (postpone_assign waiting gap (priced.assign alone (fun k => le_rfl) (fun k _ => rfl) second)
          (bounded.assign i j2) priced.distinct tells ⟨rfl, rfl⟩ free).imp
          fun turn met => met.imp (fun next moved => ⟨moved.1, moved.2.2, .inl moved.2.1⟩) fun _ => id
      · exact (postpone_assign waiting gap plain (bounded.assign i j) priced.distinct tells ⟨rfl, rfl⟩ free).imp
          fun turn met => met.imp (fun next moved => ⟨moved.1, moved.2.2, .inl moved.2.1⟩) fun _ => id
  · exact (postpone_assign waiting gap plain (bounded.assign i j) priced.distinct tells ⟨rfl, rfl⟩ free).imp
      fun turn met => met.imp (fun next moved => ⟨moved.1, moved.2.2, .inl moved.2.1⟩) fun _ => id

theorem carrRound_ends (entries : ∀ i j, 0 ≤ cost i j ∧ cost i j ≤ 1) (nFreeRows : Nat) (state : Reduction K n)
    (held : Reducing cost nFreeRows state) :
    Ends (carrRound cost nFreeRows state) (Turn.Meets
      (fun next => Reducing cost nFreeRows next ∧ allowance nFreeRows next < allowance nFreeRows state)
      fun next => ∃ owner rows, Stage cost next.1 next.2 owner rows) := by
  obtain ⟨owner, postponed, rest, priced, bounded, tells, free, waiting⟩ := held
  have total := waiting.total
  unfold carrRound
  split
  · next before =>
    cases rest with
    | nil =>
      rw [List.length_nil] at total
      omega
    | cons i rows =>
      obtain ⟨⟨inside, taken⟩, _⟩ := waiting.ahead
      have fetched := fetch_inside state.solver.freeRows ⟨state.current, inside⟩
      dsimp only at fetched
      obtain ⟨u, vacant⟩ := priced.vacant ((free.mem i).mp (by simp))
      have small (k) : cost i k - state.solver.v k < 1000000 := by
        have := (entries i k).2
        have := (bounded u vacant).2 k
        linarith
      rw [fetched, taken, pure_bind]
      refine (leastTwo_ends i small).bind fun least found => ?_
      obtain ⟨j, two⟩ := found
      have queues := waiting.take ((state.rrCnt + 1) % 2 ^ 32)
      refine (placeRow_ends queues (Nat.lt_succ_of_le waiting.order) entries priced bounded tells free two).imp
        fun turn met => met.imp (fun next moved => ⟨moved.1, ?_⟩) fun _ never => never.elim
      obtain ⟨_, counter, current⟩ := moved
      dsimp only at counter current
      rw [allowance, allowance, counter]
      omega
  · next after =>
    have none : rest = [] := List.eq_nil_of_length_eq_zero (by omega)
    subst none
    rw [List.append_nil] at free
    exact .pure ⟨owner, postponed, priced, bounded, tells, free, waiting.done, waiting.count⟩

/-- The row reduction ends in range, with the rows it left over listed. -/
theorem carrDense_ends (entries : ∀ i j, 0 ≤ cost i j ∧ cost i j ≤ 1) {rows : List (Fin n)}
    (stage : Stage cost nFreeRows solver owner rows) :
    Ends (carrDense cost nFreeRows solver) fun next => ∃ owner rows, Stage cost next.1 next.2 owner rows := by
  have few : nFreeRows ≤ n := by
    have bound := stage.free.nodup.length_le_card
    rwa [Fintype.card_fin, ← stage.count] at bound
  exact Ends.loop (measure (allowance nFreeRows)).wf (Reducing cost nFreeRows) (carrRound_ends entries nFreeRows)
    ⟨owner, [], rows, stage.priced, stage.bounded, stage.tells, stage.free, trivial, stage.queued, rfl,
      (Nat.zero_add _).trans stage.count.symm, Nat.zero_le _, few⟩

end round

end Yolov5Rknn.Lapjv

import Yolov5Rknn.Proofs.LapjvRows
import Mathlib.Tactic.Ring

/-! The search for a shortest alternating path in exact arithmetic. `cols` is always an
order of the columns: those before `n_ready` are settled, those before `hi` are at the
least distance, and those before `lo` have been scanned. -/

namespace Yolov5Rknn.Lapjv
open Program Augmenting

attribute [local instance] Arithmetic.ofField

variable {n : Nat}

section order

/-- `cols` for an order of the columns. -/
def listing (order : Equiv.Perm (Fin n)) : Fin n → Int := fun position => (order position).val

/-- The position of a column. -/
def rank (order : Equiv.Perm (Fin n)) (j : Fin n) : Nat := (order.symm j).val

variable {order later : Equiv.Perm (Fin n)} {j k : Fin n}

@[simp] theorem rank_apply (order : Equiv.Perm (Fin n)) (position : Fin n) : rank order (order position) = position := by
  rw [rank, Equiv.symm_apply_apply]

theorem rank_lt (order : Equiv.Perm (Fin n)) (j : Fin n) : rank order j < n := (order.symm j).isLt

theorem eq_of_rank {position : Fin n} (same : rank order j = position.val) : j = order position := by
  rw [← Fin.ext same, Equiv.apply_symm_apply]

/-- What an exchange does to the position of a column. -/
theorem rank_swap (order : Equiv.Perm (Fin n)) (one two j : Fin n) :
    (rank order j = one ∧ rank ((Equiv.swap one two).trans order) j = two) ∨
      (rank order j ≠ one ∧ rank order j = two ∧ rank ((Equiv.swap one two).trans order) j = one) ∨
      (rank order j ≠ one ∧ rank order j ≠ two ∧ rank ((Equiv.swap one two).trans order) j = rank order j) := by
  have moved : rank ((Equiv.swap one two).trans order) j = (Equiv.swap one two (order.symm j)).val := by
    rw [rank, Equiv.symm_trans_apply, Equiv.symm_swap]
  rw [moved, rank, Equiv.swap_apply_def]
  by_cases first : order.symm j = one
  · exact .inl ⟨congrArg Fin.val first, by rw [if_pos first]⟩
  · have apart : (order.symm j).val ≠ one := fun same => first (Fin.ext same)
    by_cases second : order.symm j = two
    · exact .inr (.inl ⟨apart, congrArg Fin.val second, by rw [if_neg first, if_pos second]⟩)
    · exact .inr (.inr ⟨apart, fun same => second (Fin.ext same), by rw [if_neg first, if_neg second]⟩)

theorem exchange_inside (order : Equiv.Perm (Fin n)) (k hi : Fin n) :
    exchange (listing order) k.val hi.val (order k).val = pure (listing ((Equiv.swap k hi).trans order)) := by
  simp only [exchange, fetch_inside, store_inside, pure_bind]
  refine congrArg pure (funext fun position => ?_)
  change _ = ((order (Equiv.swap k hi position)).val : Int)
  rw [Equiv.swap_apply_def]
  by_cases last : position = hi
  · subst last
    rw [Function.update_self]
    split
    · next same => rw [same]
    · rw [if_pos rfl]
  · rw [Function.update_of_ne last, if_neg last]
    by_cases first : position = k
    · rw [first, Function.update_self, if_pos rfl]
      rfl
    · rw [Function.update_of_ne first, if_neg first]
      rfl

/-- The two orders agree before a position. -/
def Agree (lo : Nat) (order later : Equiv.Perm (Fin n)) : Prop :=
  ∀ j, rank order j = rank later j ∨ lo ≤ rank order j ∧ lo ≤ rank later j

theorem Agree.swap {lo : Nat} (agree : Agree lo order later) {one two : Fin n} (first : lo ≤ one.val)
    (second : lo ≤ two.val) : Agree lo order ((Equiv.swap one two).trans later) := by
  intro j
  have before := agree j
  rcases rank_swap later one two j with ⟨_, _⟩ | ⟨_, _, _⟩ | ⟨_, _, _⟩ <;> omega

end order

section find

variable {K : Type} [Field K] [LinearOrder K] {d : Fin n → K} {order later : Equiv.Perm (Fin n)}

/-- The columns from `lo` to `hi` are at the least distance, but for those from `k` on. -/
structure Least (d : Fin n → K) (lo k : Nat) (initial : Equiv.Perm (Fin n)) (nearest : Nearest K n)
    (order : Equiv.Perm (Fin n)) : Prop where
  cols : nearest.cols = listing order
  bounds : lo < nearest.hi ∧ nearest.hi ≤ k
  near : ∀ j, lo ≤ rank order j → rank order j < nearest.hi → d j = nearest.mind
  far : ∀ j, lo ≤ rank order j → rank order j < k → nearest.mind ≤ d j
  agree : Agree lo initial order

variable {lo k : Nat} {initial : Equiv.Perm (Fin n)} {nearest : Nearest K n}

theorem findStep_ends (least : Least d lo k initial nearest order) (inside : k < n) :
    Ends (findStep d lo nearest k) fun next => ∃ order, Least d lo (k + 1) initial next order := by
  obtain ⟨cols, bounds, near, far, agree⟩ := least
  have fetched := fetch_inside (listing order) ⟨k, inside⟩
  dsimp only at fetched
  have moved (j) (here : rank order j = k) : j = order ⟨k, inside⟩ := eq_of_rank here
  unfold findStep
  rw [cols, fetched, pure_bind, listing, fetch_inside, pure_bind]
  split
  · split
    · next less =>
      have place : lo < n := by omega
      have exchanged := exchange_inside order ⟨k, inside⟩ ⟨lo, place⟩
      dsimp only at exchanged
      rw [exchanged, pure_bind]
      refine .pure ⟨_, rfl, ⟨Nat.lt_succ_self lo, by dsimp only; omega⟩, fun j after before => ?_,
        fun j after before => ?_, agree.swap (by dsimp only; omega) le_rfl⟩
      · rcases rank_swap order ⟨k, inside⟩ ⟨lo, place⟩ j with ⟨here, there⟩ | ⟨_, _, there⟩ | ⟨_, _, there⟩
        · rw [moved j here]
        · dsimp only at *
          omega
        · dsimp only at *
          omega
      · rcases rank_swap order ⟨k, inside⟩ ⟨lo, place⟩ j with ⟨here, there⟩ | ⟨_, _, there⟩ | ⟨_, _, there⟩
        · rw [moved j here]
        · dsimp only at *
          exact less.le.trans (far j (by omega) (by omega))
        · dsimp only at *
          exact less.le.trans (far j (by omega) (by omega))
    · next equal =>
      have same : d (order ⟨k, inside⟩) = nearest.mind := le_antisymm ‹_› (not_lt.mp equal)
      have place : nearest.hi < n := by omega
      have exchanged := exchange_inside order ⟨k, inside⟩ ⟨nearest.hi, place⟩
      dsimp only at exchanged
      rw [exchanged, pure_bind]
      refine .pure ⟨_, rfl, ⟨Nat.lt_succ_of_lt bounds.1, Nat.succ_le_succ bounds.2⟩, fun j after before => ?_,
        fun j after before => ?_, agree.swap (by dsimp only; omega) (by dsimp only; omega)⟩
      · rcases rank_swap order ⟨k, inside⟩ ⟨nearest.hi, place⟩ j with ⟨here, there⟩ | ⟨_, _, there⟩ | ⟨_, _, there⟩
        · rw [moved j here, same]
        · dsimp only at *
          exact near j (by omega) (by omega)
        · dsimp only at *
          exact near j (by omega) (by omega)
      · rcases rank_swap order ⟨k, inside⟩ ⟨nearest.hi, place⟩ j with ⟨here, there⟩ | ⟨_, _, there⟩ | ⟨_, _, there⟩
        · rw [moved j here]
          exact same.ge
        · dsimp only at *
          exact far j (by omega) (by omega)
        · dsimp only at *
          exact far j (by omega) (by omega)
  · next above =>
    refine .pure ⟨order, cols, ⟨bounds.1, by omega⟩, near, fun j after before => ?_, agree⟩
    by_cases here : rank order j = k
    · rw [moved j here]
      exact (not_le.mp above).le
    · exact far j after (by omega)

theorem findDense_ends (d : Fin n → K) (initial : Equiv.Perm (Fin n)) (inside : lo < n) :
    Ends (findDense lo d (listing initial)) fun nearest => ∃ order, Least d lo n initial nearest order := by
  have fetched := fetch_inside (listing initial) ⟨lo, inside⟩
  dsimp only at fetched
  unfold findDense
  rw [fetched, pure_bind, listing, fetch_inside, pure_bind]
  refine Ends.range (fun k nearest => ∃ order, Least d lo k initial nearest order) inside
    (fun k nearest _ before held => held.elim fun order least => findStep_ends least before) ?_
  have only (j) (after : lo ≤ rank initial j) (before : rank initial j < lo + 1) : j = initial ⟨lo, inside⟩ :=
    eq_of_rank (by dsimp only; omega)
  refine ⟨initial, rfl, ⟨Nat.lt_succ_self lo, le_rfl⟩, fun j after before => ?_, fun j after before => ?_, fun j => .inl rfl⟩
  · rw [only j after before]
  · rw [only j after before]

end find

section level

variable {K : Type} {owner : Fin n → Option (Fin n)} {order : Equiv.Perm (Fin n)} {y : Fin n → Int} {search : Search K n}

/-- The cells of a search for an order and predecessors. -/
def Shows (search : Search K n) (order : Equiv.Perm (Fin n)) (pred : Fin n → Fin n) : Prop :=
  search.cols = listing order ∧ search.pred = fun j => ((pred j).val : Int)

theorem Shows.label {pred : Fin n → Fin n} (cells : Shows search order pred) (i j : Fin n) (lo hi : Nat) (d : Fin n → K) :
    Shows ⟨lo, hi, d, search.cols, Function.update search.pred j i.val⟩ order (Function.update pred j i) := by
  refine ⟨cells.1, ?_⟩
  funext l
  dsimp only
  by_cases here : l = j
  · rw [here, Function.update_self, Function.update_self]
  · rw [Function.update_of_ne here, Function.update_of_ne here, cells.2]

/-- The loop over a level finds a column without a row, or there is none. -/
theorem openColumn_ends (cols : search.cols = listing order) (rows : ∀ j, y j = index (owner j))
    (bounds : search.lo ≤ search.hi ∧ search.hi ≤ n) :
    Ends (openColumn y search (-1)) fun finalJ =>
      (finalJ = -1 ∧ ∀ j, search.lo ≤ rank order j → rank order j < search.hi → owner j ≠ none) ∨
        ∃ j : Fin n, finalJ = j.val ∧ owner j = none ∧ rank order j < search.hi := by
  unfold openColumn
  refine Ends.range (fun k (finalJ : Int) =>
    (finalJ = -1 ∧ ∀ j, search.lo ≤ rank order j → rank order j < k → owner j ≠ none) ∨
      ∃ j : Fin n, finalJ = j.val ∧ owner j = none ∧ rank order j < search.hi) bounds.1
    (fun k finalJ after before held => ?_) (.inl ⟨rfl, fun j after before => by omega⟩)
  have inside : k < n := by omega
  have fetched := fetch_inside (listing order) ⟨k, inside⟩
  dsimp only at fetched
  rw [cols, fetched, pure_bind, listing, fetch_inside, pure_bind, rows]
  refine .pure ?_
  split
  · next vacant =>
    exact .inr ⟨_, rfl, index_neg_iff.mp vacant, by rw [rank_apply]; exact before⟩
  · next closed =>
    rw [index_neg_iff] at closed
    rcases held with ⟨none, owned⟩ | found
    · refine .inl ⟨none, fun j first last => ?_⟩
      by_cases here : rank order j = k
      · have same : j = order ⟨k, inside⟩ := eq_of_rank here
        exact same ▸ closed
      · exact owned j first (by omega)
    · exact .inr found

end level

section search

variable {K : Type} [Field K] [LinearOrder K] {cost : Matrix (Fin n) (Fin n) K} {v : Fin n → K}
  {owner : Fin n → Option (Fin n)} {start : Fin n}

/-- Where the paths come from; the rows they come through were scanned before position `lo`. -/
structure Traced (cost : Matrix (Fin n) (Fin n) K) (v : Fin n → K) (owner : Fin n → Option (Fin n)) (start : Fin n)
    (lo : Nat) (d : Fin n → K) (order : Equiv.Perm (Fin n)) (pred : Fin n → Fin n) : Prop where
  first : ∀ j, d j ≤ cost start j - v j
  traced : ∀ j, (pred j = start ∧ d j = cost start j - v j) ∨
    ∃ k, owner k = some (pred j) ∧ rank order k < lo ∧ rank order k < rank order j ∧
      d j = d k + ((cost (pred j) j - v j) - (cost (pred j) k - v k))

/-- No path through a column before position `lo` is shorter. -/
def Scanned (cost : Matrix (Fin n) (Fin n) K) (v : Fin n → K) (owner : Fin n → Option (Fin n)) (lo : Nat)
    (d : Fin n → K) (order : Equiv.Perm (Fin n)) : Prop :=
  ∀ k, rank order k < lo → Relaxed cost v owner d k

/-- What holds between two levels: the columns before `lo` are done. -/
structure Between (cost : Matrix (Fin n) (Fin n) K) (v : Fin n → K) (owner : Fin n → Option (Fin n)) (start : Fin n)
    (lo : Nat) (d : Fin n → K) (order : Equiv.Perm (Fin n)) (pred : Fin n → Fin n) : Prop
    extends Traced cost v owner start lo d order pred where
  sorted : ∀ j k, rank order j < lo → lo ≤ rank order k → d j ≤ d k
  owned : ∀ j, rank order j < lo → owner j ≠ none
  scanned : Scanned cost v owner lo d order

/-- What holds while the level from `nReady` to `hi` is scanned. -/
structure Level (cost : Matrix (Fin n) (Fin n) K) (v : Fin n → K) (owner : Fin n → Option (Fin n)) (start : Fin n)
    (nReady lo hi : Nat) (mind : K) (d : Fin n → K) (order : Equiv.Perm (Fin n)) (pred : Fin n → Fin n) : Prop
    extends Traced cost v owner start lo d order pred where
  bounds : nReady ≤ lo ∧ lo ≤ hi ∧ hi ≤ n ∧ nReady < hi
  near : ∀ j, rank order j < hi → d j ≤ mind
  far : ∀ j, nReady ≤ rank order j → mind ≤ d j

/-- How the search ends: with a column `j` without a row, no farther than the last level. -/
structure Found (cost : Matrix (Fin n) (Fin n) K) (v : Fin n → K) (owner : Fin n → Option (Fin n)) (start : Fin n)
    (nReady : Nat) (mind : K) (d : Fin n → K) (order : Equiv.Perm (Fin n)) (pred : Fin n → Fin n) (j : Fin n) : Prop where
  labelled : Labelled cost v owner start d pred (rank order)
  inside : nReady < n
  vacant : owner j = none
  reached : d j ≤ mind
  near : ∀ k, rank order k ≤ nReady → d k ≤ mind
  far : ∀ k, nReady ≤ rank order k → mind ≤ d k
  scanned : Scanned cost v owner nReady d order

variable {lo hi nReady : Nat} {mind : K} {d : Fin n → K} {order later : Equiv.Perm (Fin n)} {pred : Fin n → Fin n}

theorem Traced.labelled (traced : Traced cost v owner start lo d order pred) :
    Labelled cost v owner start d pred (rank order) := by
  refine ⟨traced.first, fun j => (traced.traced j).imp_right fun through => ?_⟩
  obtain ⟨k, owned, _, earlier, length⟩ := through
  exact ⟨k, owned, earlier, length⟩

theorem Traced.agree (traced : Traced cost v owner start lo d order pred) (agree : Agree lo order later) :
    Traced cost v owner start lo d later pred := by
  refine ⟨traced.first, fun j => (traced.traced j).imp_right fun through => ?_⟩
  obtain ⟨k, owned, scanned, earlier, length⟩ := through
  have here := agree k
  have there := agree j
  exact ⟨k, owned, by omega, by omega, length⟩

theorem Scanned.mono {fewer : Nat} (scanned : Scanned cost v owner lo d order) (less : fewer ≤ lo) :
    Scanned cost v owner fewer d order :=
  fun k before => scanned k (before.trans_le less)

theorem Scanned.agree (scanned : Scanned cost v owner lo d order) (agree : Agree lo order later) :
    Scanned cost v owner lo d later := by
  intro k before
  have here := agree k
  exact scanned k (by omega)

/-- The next level, once its columns are in place. -/
theorem Between.level {nearest : Nearest K n} (between : Between cost v owner start lo d order pred)
    (least : Least d lo n order nearest later) :
    Level cost v owner start lo lo nearest.hi nearest.mind d later pred := by
  obtain ⟨_, bounds, near, far, agree⟩ := least
  have inside : lo < n := by omega
  refine ⟨between.toTraced.agree agree, ⟨le_rfl, bounds.1.le, bounds.2, bounds.1⟩, fun j before => ?_,
    fun j after => far j after (rank_lt later j)⟩
  by_cases done : rank later j < lo
  · have first : rank later (later ⟨lo, inside⟩) = lo := rank_apply later ⟨lo, inside⟩
    have here := agree j
    have there := agree (later ⟨lo, inside⟩)
    have shorter := between.sorted j (later ⟨lo, inside⟩) (by omega) (by omega)
    rwa [near _ first.ge (by omega)] at shorter
  · exact (near j (by omega) before).le

/-- A level that has been scanned to its end. -/
theorem Level.between (level : Level cost v owner start nReady lo hi mind d order pred) (last : lo = hi)
    (owned : ∀ j, rank order j < lo → owner j ≠ none) (scanned : Scanned cost v owner lo d order) :
    Between cost v owner start lo d order pred := by
  subst last
  refine ⟨level.toTraced, fun j k before after => ?_, owned, scanned⟩
  exact (level.near j before).trans (level.far k (level.bounds.1.trans after))

theorem Level.found (level : Level cost v owner start nReady lo hi mind d order pred)
    (scanned : Scanned cost v owner nReady d order) {j : Fin n} (vacant : owner j = none) (reached : d j ≤ mind) :
    Found cost v owner start nReady mind d order pred j := by
  have bounds := level.bounds
  exact ⟨level.toTraced.labelled, by omega, vacant, reached, fun k before => level.near k (by omega), level.far,
    scanned⟩

section scan

variable {i j k : Fin n} {c : K}

/-- A shorter path to a column at `hi` or after it. -/
theorem Level.label (level : Level cost v owner start nReady lo hi mind d order pred) (owned : owner k = some i)
    (before : rank order k < lo) (after : hi ≤ rank order j) (length : c = d k + ((cost i j - v j) - (cost i k - v k)))
    (shorter : c < d j) (far : mind ≤ c) :
    Level cost v owner start nReady lo hi mind (Function.update d j c) order (Function.update pred j i) := by
  have bounds := level.bounds
  have other {l : Fin n} (near : rank order l < hi) : l ≠ j := fun same => by rw [same] at near; omega
  have kept {l : Fin n} (near : rank order l < hi) : Function.update d j c l = d l := Function.update_of_ne (other near) _ _
  refine ⟨⟨fun l => ?_, fun l => ?_⟩, bounds, fun l near => ?_, fun l beyond => ?_⟩
  · by_cases here : l = j
    · rw [here, Function.update_self]
      exact shorter.le.trans (level.first j)
    · rw [Function.update_of_ne here]
      exact level.first l
  · by_cases here : l = j
    · rw [here, Function.update_self, Function.update_self]
      exact .inr ⟨k, owned, before, by omega, by rw [kept (by omega), length]⟩
    · rw [Function.update_of_ne here, Function.update_of_ne here]
      refine (level.traced l).imp_right fun through => ?_
      obtain ⟨m, row, scanned, earlier, far⟩ := through
      exact ⟨m, row, scanned, earlier, by rw [kept (by omega), far]⟩
  · rw [kept near]
    exact level.near l near
  · by_cases here : l = j
    · rw [here, Function.update_self]
      exact far
    · rw [Function.update_of_ne here]
      exact level.far l beyond

theorem Scanned.label (scanned : Scanned cost v owner lo d order) (after : lo ≤ rank order j) (shorter : c < d j) :
    Scanned cost v owner lo (Function.update d j c) order := by
  intro k before row owned l
  have apart : k ≠ j := fun same => by rw [same] at before; omega
  rw [Function.update_of_ne apart]
  by_cases here : l = j
  · rw [here, Function.update_self]
    exact shorter.le.trans (scanned k before row owned j)
  · rw [Function.update_of_ne here]
    exact scanned k before row owned l

/-- A column at the least distance joins the level. -/
theorem Level.extend (level : Level cost v owner start nReady lo hi mind d order pred) {one two : Fin n}
    (first : hi ≤ one.val) (second : hi = two.val) (same : d (order one) = mind) :
    Level cost v owner start nReady lo (hi + 1) mind d ((Equiv.swap one two).trans order) pred := by
  have bounds := level.bounds
  have agree : Agree hi order ((Equiv.swap one two).trans order) :=
    Agree.swap (fun j => .inl rfl) first second.le
  have sooner : Agree lo order ((Equiv.swap one two).trans order) := by
    intro j
    have here := agree j
    omega
  have inside := two.isLt
  refine ⟨level.toTraced.agree sooner, by omega, fun j before => ?_, fun j beyond => level.far j ?_⟩
  · rcases rank_swap order one two j with ⟨here, _⟩ | ⟨_, _, _⟩ | ⟨_, _, _⟩
    · rw [eq_of_rank here, same]
    · exact level.near j (by omega)
    · exact level.near j (by omega)
  · have here := agree j
    omega

variable {search : Search K n}

/-- The search has ended with a column, which is returned. -/
def Ended (cost : Matrix (Fin n) (Fin n) K) (v : Fin n → K) (owner : Fin n → Option (Fin n)) (start : Fin n)
    (nReady : Nat) (mind : K) (result : Search K n × Int) : Prop :=
  ∃ (order : Equiv.Perm (Fin n)) (pred : Fin n → Fin n) (j : Fin n), Shows result.1 order pred ∧ result.2 = j.val ∧
    Found cost v owner start nReady mind result.1.d order pred j

/-- Column `k` at position `lo` is being scanned for its row `i`, up to position `stop`. -/
structure Scanning (cost : Matrix (Fin n) (Fin n) K) (v : Fin n → K) (owner : Fin n → Option (Fin n)) (start : Fin n)
    (nReady lo : Nat) (mind : K) (k i : Fin n) (stop : Nat) (search : Search K n) (order : Equiv.Perm (Fin n))
    (pred : Fin n → Fin n) : Prop where
  cells : Shows search order pred
  next : search.lo = lo + 1
  since : nReady ≤ lo
  level : Level cost v owner start nReady (lo + 1) search.hi mind search.d order pred
  owned : ∀ j, rank order j < search.hi → owner j ≠ none
  scanned : Scanned cost v owner lo search.d order
  place : rank order k = lo
  ahead : search.hi ≤ stop
  relaxed : ∀ j, rank order j < stop → search.d j ≤ search.d k + ((cost i j - v j) - (cost i k - v k))

@[simp] theorem reduced_inside (i j : Fin n) : reduced cost v i.val j.val = pure (cost i j - v j) := by
  rw [reduced, rowOf_inside, pure_bind, fetch_inside]

variable {stop : Nat} {y : Fin n → Int}

/-- The path through the scanned column is shorter. -/
theorem Scanning.label (held : Scanning cost v owner start nReady lo mind k i stop search order pred)
    (owned : owner k = some i) (here : rank order j = stop) (length : c = search.d k + ((cost i j - v j) - (cost i k - v k)))
    (shorter : c < search.d j) (far : mind ≤ c) :
    Scanning cost v owner start nReady lo mind k i (stop + 1)
      ⟨search.lo, search.hi, Function.update search.d j c, search.cols, Function.update search.pred j i.val⟩ order
      (Function.update pred j i) := by
  have bounds := held.level.bounds
  have place := held.place
  have ahead := held.ahead
  have apart : k ≠ j := fun same => by rw [same] at place; omega
  refine ⟨held.cells.label i j _ _ _, held.next, held.since,
    held.level.label owned (by omega) (by omega) length shorter far, held.owned,
    held.scanned.label (by omega) shorter, place, by dsimp only; omega, fun l before => ?_⟩
  dsimp only
  rw [Function.update_of_ne apart]
  by_cases same : l = j
  · rw [same, Function.update_self, length]
  · have other : rank order l ≠ stop := fun equal => by
      have one : l = order (order.symm j) := eq_of_rank (equal.trans here.symm)
      exact same (by rw [one, Equiv.apply_symm_apply])
    rw [Function.update_of_ne same]
    exact held.relaxed l (by omega)

/-- The column just scanned joins the level. -/
theorem Scanning.extend (held : Scanning cost v owner start nReady lo mind k i (stop + 1) search order pred)
    (inside : stop < n) (room : search.hi ≤ stop) (same : search.d (order ⟨stop, inside⟩) = mind)
    (closed : owner (order ⟨stop, inside⟩) ≠ none) :
    let later := (Equiv.swap (⟨stop, inside⟩ : Fin n) ⟨search.hi, by omega⟩).trans order
    Scanning cost v owner start nReady lo mind k i (stop + 1)
      ⟨search.lo, search.hi + 1, search.d, listing later, search.pred⟩ later pred := by
  intro later
  have bounds := held.level.bounds
  have place := held.place
  have swapped : ∀ j, (rank order j = stop ∧ rank later j = search.hi) ∨
      (rank order j ≠ stop ∧ rank order j = search.hi ∧ rank later j = stop) ∨
      (rank order j ≠ stop ∧ rank order j ≠ search.hi ∧ rank later j = rank order j) :=
    rank_swap order ⟨stop, inside⟩ ⟨search.hi, by omega⟩
  have agree : Agree search.hi order later := Agree.swap (fun j => .inl rfl) room le_rfl
  have sooner : Agree lo order later := by
    intro j
    have here := agree j
    omega
  refine ⟨⟨rfl, held.cells.2⟩, held.next, held.since, held.level.extend room rfl same, fun j before => ?_,
    held.scanned.agree sooner, ?_, Nat.succ_le_succ room, fun j before => held.relaxed j ?_⟩
  · rcases swapped j with ⟨here, _⟩ | ⟨_, _, there⟩ | ⟨_, _, there⟩
    · have same : j = order ⟨stop, inside⟩ := eq_of_rank here
      exact same ▸ closed
    · dsimp only at before
      exact held.owned j (by omega)
    · dsimp only at before
      exact held.owned j (by omega)
  · have here := agree k
    omega
  · rcases swapped j with ⟨here, _⟩ | ⟨_, here, _⟩ | ⟨_, _, there⟩
    · omega
    · omega
    · omega

/-- What holds before every round of `_scan_dense`. -/
def Underway (cost : Matrix (Fin n) (Fin n) K) (v : Fin n → K) (owner : Fin n → Option (Fin n)) (start : Fin n)
    (nReady : Nat) (mind : K) (search : Search K n) : Prop :=
  ∃ order pred, Shows search order pred ∧ Level cost v owner start nReady search.lo search.hi mind search.d order pred ∧
    Scanned cost v owner search.lo search.d order ∧ ∀ j, rank order j < search.hi → owner j ≠ none

theorem Scanning.underway (held : Scanning cost v owner start nReady lo mind k i n search order pred)
    (owned : owner k = some i) : Underway cost v owner start nReady mind search := by
  refine ⟨order, pred, held.cells, held.next ▸ held.level, fun l before => ?_, held.owned⟩
  rw [held.next] at before
  by_cases here : rank order l = lo
  · have same : l = k := order.symm.injective (Fin.ext (here.trans held.place.symm))
    intro row taken j
    rw [same, owned] at taken
    cases taken
    rw [same]
    exact held.relaxed j (rank_lt order j)
  · exact held.scanned l (by omega)

variable [IsStrictOrderedRing K]

theorem scanStep_ends (priced : Priced cost v owner) (rows : ∀ j, y j = index (owner j)) (owned : owner k = some i)
    (inside : stop < n) (held : Scanning cost v owner start nReady lo mind k i stop search order pred) :
    Ends (scanStep cost y v i.val (cost i k - v k - mind) mind search stop) (Turn.Meets
      (fun next => ∃ order pred, Scanning cost v owner start nReady lo mind k i (stop + 1) next order pred)
      (Ended cost v owner start nReady mind)) := by
  have bounds := held.level.bounds
  have place := held.place
  have ahead := held.ahead
  have since := held.since
  have least : search.d k = mind := le_antisymm (held.level.near k (by omega)) (held.level.far k (by omega))
  have fetched : fetch search.cols stop = pure ((order ⟨stop, inside⟩).val : Int) := by
    rw [held.cells.1]
    exact fetch_inside (listing order) ⟨stop, inside⟩
  have here : rank order (order ⟨stop, inside⟩) = stop := rank_apply order ⟨stop, inside⟩
  have cheaper := priced.lowest k i owned (order ⟨stop, inside⟩)
  have exchanged : exchange search.cols stop search.hi (order ⟨stop, inside⟩).val =
      pure (listing ((Equiv.swap (⟨stop, inside⟩ : Fin n) ⟨search.hi, by omega⟩).trans order)) := by
    rw [held.cells.1]
    exact exchange_inside order ⟨stop, inside⟩ ⟨search.hi, by omega⟩
  have reached {c : K} (same : c = mind) :
      Function.update search.d (order ⟨stop, inside⟩) c (order ⟨stop, inside⟩) = mind := by
    rw [Function.update_self, same]
  unfold scanStep
  rw [fetched, pure_bind, reduced_inside, pure_bind, fetch_inside, pure_bind]
  split
  · next shorter =>
    have labelled := held.label owned here (by rw [least]; ring) shorter (by linarith)
    simp only [store_inside, pure_bind, rows, fetch_inside]
    split
    · next equal =>
      have same := le_antisymm equal.1 equal.2
      split
      · next vacant =>
        rw [index_neg_iff] at vacant
        refine .pure ⟨order, _, _, labelled.cells, rfl, ?_⟩
        exact labelled.level.found (labelled.scanned.mono since) vacant (reached same).le
      · next closed =>
        rw [index_neg_iff] at closed
        rw [exchanged, pure_bind]
        exact .pure ⟨_, _, labelled.extend inside ahead (reached same) closed⟩
    · exact .pure ⟨order, _, labelled⟩
  · next longer =>
    refine .pure ⟨order, pred, held.cells, held.next, since, held.level, held.owned, held.scanned, place, by omega,
      fun l before => ?_⟩
    by_cases last : rank order l = stop
    · have same : l = order ⟨stop, inside⟩ := eq_of_rank last
      rw [same, least]
      linarith
    · exact held.relaxed l (by omega)

theorem scanRound_ends (priced : Priced cost v owner) (rows : ∀ j, y j = index (owner j)) (plo phi : Nat)
    (held : Underway cost v owner start nReady mind search) :
    Ends (scanRound cost y v plo phi search) (Turn.Meets
      (fun next => Underway cost v owner start nReady mind next ∧ n - next.lo < n - search.lo) fun result =>
        (result.2 = -1 ∧ result.1 = search ∧ search.lo = search.hi) ∨
          (Ended cost v owner start nReady mind result ∧ result.1.lo = plo)) := by
  obtain ⟨order, pred, cells, level, scanned, owned⟩ := held
  have bounds := level.bounds
  unfold scanRound
  split
  · next unfinished =>
    have inside : search.lo < n := by omega
    have fetched : fetch search.cols search.lo = pure ((order ⟨search.lo, inside⟩).val : Int) := by
      rw [cells.1]
      exact fetch_inside (listing order) ⟨search.lo, inside⟩
    have place : rank order (order ⟨search.lo, inside⟩) = search.lo := rank_apply order ⟨search.lo, inside⟩
    generalize order ⟨search.lo, inside⟩ = k at fetched place
    obtain ⟨i, row⟩ := Option.ne_none_iff_exists'.mp (owned k (by omega))
    have least : search.d k = mind := le_antisymm (level.near k (by omega)) (level.far k (by omega))
    rw [fetched]
    simp only [pure_bind, rows, row, index_some, fetch_inside, reduced_inside, least]
    have further : Level cost v owner start nReady (search.lo + 1) search.hi mind search.d order pred := by
      refine ⟨⟨level.first, fun j => (level.traced j).imp_right fun through => ?_⟩, by omega, level.near, level.far⟩
      obtain ⟨l, taken, before, rest⟩ := through
      exact ⟨l, taken, by omega, rest⟩
    have begins : Scanning cost v owner start nReady search.lo mind k i search.hi
        { search with lo := search.lo + 1 } order pred := by
      refine ⟨cells, rfl, bounds.1, further, owned, scanned, place, le_rfl, fun j before => ?_⟩
      have near := level.near j before
      have cheaper := priced.lowest k i row j
      dsimp only
      linarith
    have walked : Ends (walk (scanStep cost y v i.val (cost i k - v k - mind) mind)
        (List.range' search.hi (n - search.hi)) { search with lo := search.lo + 1 }) (Turn.Meets
          (fun next => ∃ order pred, Scanning cost v owner start nReady search.lo mind k i n next order pred)
          (Ended cost v owner start nReady mind)) := by
      refine Ends.walk (fun stop next =>
        ∃ order pred, Scanning cost v owner start nReady search.lo mind k i stop next order pred) (by omega)
        (fun stop next _ before held => ?_) ⟨order, pred, begins⟩
      obtain ⟨order, pred, held⟩ := held
      exact scanStep_ends priced rows row before held
    refine walked.bind fun turn met => .pure (.map ?_)
    refine met.imp (fun next held => ?_) fun result ended => .inr ⟨ended, rfl⟩
    obtain ⟨order, pred, held⟩ := held
    exact ⟨held.underway row, by rw [id, held.next]; omega⟩
  · next finished => exact .pure (.inl ⟨rfl, rfl, not_not.mp finished⟩)

/-- A scan ends between two levels, or with a column without a row. -/
theorem scanDense_ends (priced : Priced cost v owner) (rows : ∀ j, y j = index (owner j))
    (held : Underway cost v owner start search.lo mind search) :
    Ends (scanDense cost y v search) fun result =>
      (result.2 = -1 ∧ search.lo < result.1.lo ∧ result.1.lo = result.1.hi ∧ ∃ order pred, Shows result.1 order pred ∧
        Between cost v owner start result.1.lo result.1.d order pred) ∨
      (Ended cost v owner start search.lo mind result ∧ result.1.lo = search.lo) := by
  unfold scanDense
  refine Ends.loop (measure fun next : Search K n => n - next.lo).wf (Underway cost v owner start search.lo mind)
    (fun next underway => (scanRound_ends priced rows search.lo search.hi underway).imp fun turn met => ?_) held
  refine met.imp (fun _ => id) fun result ended => ended.imp_left fun finished => ?_
  obtain ⟨missing, same, last⟩ := finished
  obtain ⟨order, pred, cells, level, scanned, owned⟩ := underway
  rw [same]
  have bounds := level.bounds
  exact ⟨missing, by omega, last, order, pred, cells, level.between last (fun j before => owned j (by omega)) scanned⟩

end scan

section path

variable {y : Fin n → Int} {path : Path K n}

/-- The search stands between two levels. -/
def Pausing (cost : Matrix (Fin n) (Fin n) K) (v : Fin n → K) (owner : Fin n → Option (Fin n)) (start : Fin n)
    (path : Path K n) : Prop :=
  path.finalJ = -1 ∧ path.search.lo = path.search.hi ∧ ∃ order pred, Shows path.search order pred ∧
    Between cost v owner start path.search.lo path.search.d order pred

/-- The search has its last column. -/
def Arrived (cost : Matrix (Fin n) (Fin n) K) (v : Fin n → K) (owner : Fin n → Option (Fin n)) (start : Fin n)
    (path : Path K n) : Prop :=
  path.search.lo = path.nReady ∧ ∃ mind, Ended cost v owner start path.nReady mind (path.search, path.finalJ)

theorem Arrived.ne (arrived : Arrived cost v owner start path) : path.finalJ ≠ -1 := by
  obtain ⟨_, mind, order, pred, j, _, final, _⟩ := arrived
  dsimp only at final
  rw [final]
  omega

theorem nextLevel_ends (rows : ∀ j, y j = index (owner j)) (room : ∃ u, owner u = none)
    (pausing : Pausing cost v owner start path) :
    Ends (nextLevel y path) fun next => next.search.lo = path.search.lo ∧ next.nReady = path.search.lo ∧
      ((next.finalJ = -1 ∧ ∃ mind, Underway cost v owner start next.nReady mind next.search) ∨
        Arrived cost v owner start next) := by
  obtain ⟨none, last, order, pred, cells, between⟩ := pausing
  obtain ⟨u, vacant⟩ := room
  have inside : path.search.lo < n := by
    by_contra beyond
    exact between.owned u (by have := rank_lt order u; omega) vacant
  unfold nextLevel
  rw [if_pos last, cells.1, none]
  refine (findDense_ends path.search.d order inside).bind fun nearest found => ?_
  obtain ⟨later, least⟩ := found
  have level := between.level least
  have scanned := between.scanned.agree least.agree
  have shown : Shows { path.search with hi := nearest.hi, cols := nearest.cols } later pred := ⟨least.cols, cells.2⟩
  refine (openColumn_ends shown.1 rows ⟨level.bounds.2.1, level.bounds.2.2.1⟩).bind fun finalJ met =>
    .pure ⟨rfl, rfl, ?_⟩
  rcases met with ⟨missing, owned⟩ | ⟨j, final, vacant, near⟩
  · refine .inl ⟨missing, nearest.mind, later, pred, shown, level, scanned, fun j before => ?_⟩
    by_cases done : rank later j < path.search.lo
    · have here := least.agree j
      exact between.owned j (by omega)
    · exact owned j (by dsimp only; omega) before
  · exact .inr ⟨rfl, nearest.mind, later, pred, j, shown, final, level.found scanned vacant (level.near j near)⟩

/-- The columns not yet settled. -/
def remaining (path : Path K n) : Nat := if path.finalJ = -1 then n + 1 - path.search.lo else 0

variable [IsStrictOrderedRing K]

theorem pathRound_ends (priced : Priced cost v owner) (rows : ∀ j, y j = index (owner j))
    (room : ∃ u, owner u = none) (held : Pausing cost v owner start path ∨ Arrived cost v owner start path) :
    Ends (pathRound cost y v path) (Turn.Meets (fun next =>
      (Pausing cost v owner start next ∨ Arrived cost v owner start next) ∧ remaining next < remaining path)
      (Arrived cost v owner start)) := by
  unfold pathRound
  rcases held with pausing | arrived
  · rw [if_pos pausing.1]
    have left : remaining path = n + 1 - path.search.lo := if_pos pausing.1
    obtain ⟨u, vacant⟩ := room
    obtain ⟨_, _, order, _, _, between⟩ := id pausing
    have inside : path.search.lo < n := by
      by_contra beyond
      exact between.owned u (by have := rank_lt order u; omega) vacant
    refine (nextLevel_ends rows ⟨u, vacant⟩ pausing).bind fun next met => ?_
    obtain ⟨same, ready, met⟩ := met
    rcases met with ⟨missing, mind, underway⟩ | arrived
    · rw [if_pos missing]
      rw [ready, ← same] at underway
      refine (scanDense_ends priced rows underway).bind fun result ended => .pure ?_
      rcases ended with ⟨missing, later, last, order, pred, shown, between⟩ | ⟨ended, place⟩
      · refine ⟨.inl ⟨missing, last, order, pred, shown, between⟩, ?_⟩
        rw [left, remaining, if_pos missing]
        dsimp only
        omega
      · have arrived : Arrived cost v owner start ⟨result.1, next.nReady, result.2⟩ :=
          ⟨place.trans (same.trans ready.symm), mind, by rw [ready, ← same]; exact ended⟩
        refine ⟨.inr arrived, ?_⟩
        rw [left, remaining, if_neg arrived.ne]
        omega
    · rw [if_neg arrived.ne]
      refine .pure ⟨.inr arrived, ?_⟩
      rw [left, remaining, if_neg arrived.ne]
      omega
  · rw [if_neg arrived.ne]
    exact .pure arrived

/-- The last loop makes the settled columns cheaper. -/
theorem raisePrices_end {search : Search K n} (cols : search.cols = listing order) (inside : nReady ≤ n)
    (near : ∀ k, rank order k < nReady → search.d k ≤ mind) (far : ∀ k, nReady ≤ rank order k → mind ≤ search.d k)
    (v : Fin n → K) :
    Ends ((List.range' 0 nReady).foldlM (raisePrice search mind) v) fun next => next = nearer v search.d mind := by
  refine (Ends.range (fun k (next : Fin n → K) => ∀ j, next j =
    if rank order j < k then v j + (search.d j - mind) else v j) (Nat.zero_le nReady) (fun k next _ before held => ?_)
    fun j => (if_neg (Nat.not_lt_zero _)).symm).imp fun next held => funext fun j => ?_
  · have position : k < n := before.trans_le inside
    have fetched : fetch search.cols k = pure ((order ⟨k, position⟩).val : Int) := by
      rw [cols]
      exact fetch_inside (listing order) ⟨k, position⟩
    have here : rank order (order ⟨k, position⟩) = k := rank_apply order ⟨k, position⟩
    unfold raisePrice
    rw [fetched]
    simp only [pure_bind, fetch_inside, store_inside]
    refine .pure fun j => ?_
    by_cases same : j = order ⟨k, position⟩
    · rw [same, Function.update_self, held, here, if_neg (Nat.lt_irrefl k), if_pos (Nat.lt_succ_self k)]
    · have other : rank order j ≠ k := fun equal => same (eq_of_rank equal)
      rw [Function.update_of_ne same, held]
      have step : rank order j < k ↔ rank order j < k + 1 := by omega
      simp only [step]
  · rw [held]
    split
    · next before => rw [nearer_near (near j before)]
    · next after => rw [nearer_far (far j (not_lt.mp after))]

/-- A way back to the row the search started from, at prices where every row keeps its
column. -/
structure Way (cost : Matrix (Fin n) (Fin n) K) (v : Fin n → K) (owner : Fin n → Option (Fin n)) (start : Fin n)
    (pred : Fin n → Fin n) (rank : Fin n → Nat) (near : Fin n → Prop) (j : Fin n) : Prop
    extends Leads cost v owner start pred rank near where
  priced : Priced cost v owner
  vacant : owner j = none
  reached : near j

theorem Found.way {j : Fin n} (found : Found cost v owner start nReady mind d order pred j)
    (priced : Priced cost v owner) :
    Way cost (nearer v d mind) owner start pred (rank order) (fun k => d k ≤ mind) j := by
  have relaxed (k) (closer : d k < mind) : Relaxed cost v owner d k := by
    refine found.scanned k ?_
    by_contra beyond
    exact absurd (found.far k (not_lt.mp beyond)) (not_le.mpr closer)
  exact ⟨found.labelled.leads priced relaxed, priced.nearer relaxed, found.vacant, found.reached⟩

/-- The search ends in range with a column without a row and a way back from it. -/
theorem findPathDense_ends (priced : Priced cost v owner) (rows : ∀ j, y j = index (owner j))
    (free : ∀ k, owner k ≠ some start) :
    Ends (findPathDense cost y v start.val) fun result =>
      ∃ (pred : Fin n → Fin n) (rank : Fin n → Nat) (near : Fin n → Prop) (j : Fin n),
        result.1 = j.val ∧ (result.2.2 = fun k => ((pred k).val : Int)) ∧
          Way cost result.2.1 owner start pred rank near j := by
  unfold findPathDense
  rw [rowOf_inside, pure_bind]
  have begins : Pausing cost v owner start
      ⟨⟨0, 0, fun j => cost start j - v j, fun j => j.val, fun _ => start.val⟩, 0, -1⟩ := by
    refine ⟨rfl, rfl, Equiv.refl _, fun _ => start, ⟨rfl, rfl⟩, ⟨fun _ => le_rfl, fun _ => .inl ⟨rfl, rfl⟩⟩,
      fun j k before => ?_, fun j before => ?_, fun k before => ?_⟩
    · exact absurd before (Nat.not_lt_zero _)
    · exact absurd before (Nat.not_lt_zero _)
    · exact absurd before (Nat.not_lt_zero _)
  refine (Ends.loop (measure remaining).wf (fun path => Pausing cost v owner start path ∨ Arrived cost v owner start path)
    (fun path held => pathRound_ends priced rows (priced.vacant free) held) (.inl begins)).bind fun path arrived => ?_
  obtain ⟨place, mind, order, pred, j, shown, final, found⟩ := arrived
  have fetched : fetch path.search.cols path.search.lo = pure ((order ⟨path.nReady, found.inside⟩).val : Int) := by
    rw [shown.1, place]
    exact fetch_inside (listing order) ⟨path.nReady, found.inside⟩
  have here : rank order (order ⟨path.nReady, found.inside⟩) = path.nReady := rank_apply order ⟨path.nReady, found.inside⟩
  have last : path.search.d (order ⟨path.nReady, found.inside⟩) = mind :=
    le_antisymm (found.near _ here.le) (found.far _ here.ge)
  rw [fetched, pure_bind, fetch_inside, pure_bind, last]
  refine (raisePrices_end shown.1 found.inside.le (fun k before => found.near k before.le) found.far v).bind
    fun next same => .pure ?_
  rw [same]
  exact ⟨pred, rank order, _, j, final, shown.2, found.way priced⟩

end path

end search

end Yolov5Rknn.Lapjv

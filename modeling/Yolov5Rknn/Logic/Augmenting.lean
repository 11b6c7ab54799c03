import Yolov5Rknn.Logic.Assignment
import Mathlib.Data.Fintype.EquivFin
import Mathlib.Tactic.Linarith

/-! Prices of the columns of a square matrix, and columns some of which have a row.
Each row that has a column has it at its least reduced cost. The lengths of alternating
paths from a row without a column tell which columns to make cheaper, so that the path
can be followed. -/

namespace Yolov5Rknn.Augmenting
open Assignment

variable {α K : Type} [CommRing K] [LinearOrder K]
variable {cost : Matrix α α K} {v lowered : α → K} {owner : α → Option α} {i j : α}

/-- At these prices no column costs the row less than `j`. -/
def Lowest (cost : Matrix α α K) (v : α → K) (i j : α) : Prop := ∀ k, cost i j - v j ≤ cost i k - v k

/-- `owner` gives different rows to the columns, each at its least reduced cost. -/
structure Priced (cost : Matrix α α K) (v : α → K) (owner : α → Option α) : Prop where
  distinct : ∀ j k i, owner j = some i → owner k = some i → j = k
  lowest : ∀ j i, owner j = some i → Lowest cost v i j

theorem Priced.release [DecidableEq α] (priced : Priced cost v owner) (j : α) :
    Priced cost v (Function.update owner j none) := by
  have kept {k i : α} (owned : Function.update owner j none k = some i) : owner k = some i := by
    by_cases here : k = j
    · rw [here, Function.update_self] at owned
      cases owned
    · rwa [Function.update_of_ne here] at owned
  exact ⟨fun k l i one two => priced.distinct k l i (kept one) (kept two),
    fun k i owned => priced.lowest k i (kept owned)⟩

/-- A row without a column leaves a column without a row. -/
theorem Priced.vacant [Finite α] (priced : Priced cost v owner) (free : ∀ k, owner k ≠ some i) :
    ∃ j, owner j = none := by
  by_contra closed
  have owned (j) : ∃ i, owner j = some i := Option.ne_none_iff_exists'.mp fun missing => closed ⟨j, missing⟩
  choose row rows using owned
  have injective : Function.Injective row := by
    intro j k same
    exact priced.distinct j k (row j) (rows j) (by rw [rows k, same])
  obtain ⟨j, found⟩ := Finite.injective_iff_surjective.mp injective i
  exact free j (by rw [rows j, found])

/-- If every row has a column, then the columns are permuted. -/
theorem places_of_complete [Finite α] (complete : ∀ i, ∃ j, owner j = some i) :
    ∃ places : Equiv.Perm α, ∀ j, owner j = some (places.symm j) := by
  choose column owned using complete
  have injective : Function.Injective column := by
    intro i k same
    have both := (owned i).symm.trans (same ▸ owned k)
    exact Option.some.inj both
  refine ⟨Equiv.ofBijective column (Finite.injective_iff_bijective.mp injective), fun j => ?_⟩
  obtain ⟨i, rfl⟩ := Finite.injective_iff_surjective.mp injective j
  rw [owned i, Equiv.ofBijective_symm_apply_apply]

variable [IsStrictOrderedRing K]

theorem Priced.least {n : Nat} {cost : Matrix (Fin n) (Fin n) K} {v : Fin n → K} {owner : Fin n → Option (Fin n)}
    (priced : Priced cost v owner) {places : Equiv.Perm (Fin n)} (owned : ∀ j, owner j = some (places.symm j))
    (other : Equiv.Perm (Fin n)) : ∑ i, cost i (places i) ≤ ∑ i, cost i (other i) := by
  refine least_of_tight (u := fun i => cost i (places i) - v (places i)) (v := v) (fun i j => ?_) (fun i => ?_) other
  · have lowest := priced.lowest (places i) i (by rw [owned, Equiv.symm_apply_apply]) j
    linarith
  · exact sub_add_cancel _ _

/-- Other columns may become cheaper. -/
theorem Lowest.lower (lowest : Lowest cost v i j) (below : ∀ k, lowered k ≤ v k) (same : lowered j = v j) :
    Lowest cost lowered i j := by
  intro k
  rw [same]
  exact (lowest k).trans (sub_le_sub_left (below k) _)

/-- One column may become cheaper as long as its row keeps it. -/
theorem Priced.cheapen (priced : Priced cost v owner) (below : ∀ k, lowered k ≤ v k)
    (same : ∀ k, k ≠ j → lowered k = v k) (lowest : ∀ i, owner j = some i → Lowest cost lowered i j) :
    Priced cost lowered owner := by
  refine ⟨priced.distinct, fun k i owned => ?_⟩
  by_cases here : k = j
  · subst here
    exact lowest i owned
  · exact (priced.lowest k i owned).lower below (same k here)

/-- A row without a column gets `j`, whatever row had it. -/
theorem Priced.assign [DecidableEq α] (priced : Priced cost v owner) (free : ∀ k, owner k ≠ some i)
    (below : ∀ k, lowered k ≤ v k) (same : ∀ k, k ≠ j → lowered k = v k) (lowest : Lowest cost lowered i j) :
    Priced cost lowered (Function.update owner j (some i)) := by
  have distinct : ∀ k l row, Function.update owner j (some i) k = some row →
      Function.update owner j (some i) l = some row → k = l := by
    intro k l row one two
    by_cases first : k = j <;> by_cases second : l = j
    · rw [first, second]
    · subst first
      rw [Function.update_self] at one
      rw [Function.update_of_ne second] at two
      cases one
      exact absurd two (free l)
    · subst second
      rw [Function.update_self] at two
      rw [Function.update_of_ne first] at one
      cases two
      exact absurd one (free k)
    · rw [Function.update_of_ne first] at one
      rw [Function.update_of_ne second] at two
      exact priced.distinct k l row one two
  refine ⟨distinct, fun k row owned => ?_⟩
  by_cases here : k = j
  · subst here
    rw [Function.update_self] at owned
    cases owned
    exact lowest
  · rw [Function.update_of_ne here] at owned
    exact (priced.lowest k row owned).lower below (same k here)

section path

/-- Lengths `d` of alternating paths from a row to the columns; `pred` is the row a
path comes from last, and the column of that row has a smaller rank. -/
structure Labelled (cost : Matrix α α K) (v : α → K) (owner : α → Option α) (start : α) (d : α → K)
    (pred : α → α) (rank : α → Nat) : Prop where
  first : ∀ j, d j ≤ cost start j - v j
  traced : ∀ j, (pred j = start ∧ d j = cost start j - v j) ∨
    ∃ k, owner k = some (pred j) ∧ rank k < rank j ∧ d j = d k + ((cost (pred j) j - v j) - (cost (pred j) k - v k))

/-- No path that goes on from the column is shorter. -/
def Relaxed (cost : Matrix α α K) (v : α → K) (owner : α → Option α) (d : α → K) (k : α) : Prop :=
  ∀ i, owner k = some i → ∀ j, d j ≤ d k + ((cost i j - v j) - (cost i k - v k))

/-- The columns nearer than `bound` become cheaper by the difference. -/
def nearer (v d : α → K) (bound : K) (j : α) : K := v j + min (d j - bound) 0

/-- Every near column can go to the row its path comes from. -/
structure Leads (cost : Matrix α α K) (v : α → K) (owner : α → Option α) (start : α) (pred : α → α)
    (rank : α → Nat) (near : α → Prop) : Prop where
  lowest : ∀ j, near j → Lowest cost v (pred j) j
  back : ∀ j, near j → pred j = start ∨ ∃ k, near k ∧ rank k < rank j ∧ owner k = some (pred j)

variable {start : α} {d : α → K} {pred : α → α} {rank : α → Nat} {bound : K}

theorem nearer_le (v d : α → K) (bound : K) (j : α) : nearer v d bound j ≤ v j :=
  add_le_of_nonpos_right (min_le_right _ _)

theorem nearer_far (far : bound ≤ d j) : nearer v d bound j = v j := by
  rw [nearer, min_eq_right (sub_nonneg.mpr far), add_zero]

theorem nearer_near (near : d j ≤ bound) : nearer v d bound j = v j + (d j - bound) := by
  rw [nearer, min_eq_left (sub_nonpos.mpr near)]

/-- A path of some length bounds the reduced cost after the change. -/
theorem bound_le_nearer (v : α → K) (bound : K) {length : K} (short : d j ≤ length) : bound ≤ length - (nearer v d bound j - v j) := by
  rcases le_total (d j) bound with near | far
  · rw [nearer_near near]
    linarith
  · rw [nearer_far far]
    linarith

/-- The rows keep their columns if the paths through nearer columns are relaxed. -/
theorem Priced.nearer (priced : Priced cost v owner) (relaxed : ∀ k, d k < bound → Relaxed cost v owner d k) :
    Priced cost (nearer v d bound) owner := by
  refine ⟨priced.distinct, fun j i owned => ?_⟩
  rcases lt_or_ge (d j) bound with near | far
  · intro k
    have further := bound_le_nearer v bound (relaxed j near i owned k)
    rw [nearer_near near.le]
    linarith
  · exact (priced.lowest j i owned).lower (nearer_le v d bound) (nearer_far far)

theorem Labelled.leads (labelled : Labelled cost v owner start d pred rank) (priced : Priced cost v owner)
    (relaxed : ∀ k, d k < bound → Relaxed cost v owner d k) :
    Leads cost (Augmenting.nearer v d bound) owner start pred rank fun j => d j ≤ bound := by
  have before {k i : α} (owned : owner k = some i) (j : α) : cost i k - v k ≤ cost i j - v j :=
    priced.lowest k i owned j
  constructor
  · intro j near
    rcases labelled.traced j with ⟨first, length⟩ | ⟨k, owned, _, length⟩
    · intro l
      have further := bound_le_nearer v bound (labelled.first l)
      rw [nearer_near near, first]
      linarith
    · intro l
      have along := (priced.nearer relaxed).lowest k (pred j) owned l
      have shorter := before owned j
      have closer : d k ≤ bound := by linarith
      rw [nearer_near closer] at along
      rw [nearer_near near]
      linarith
  · intro j near
    rcases labelled.traced j with ⟨first, _⟩ | ⟨k, owned, earlier, length⟩
    · exact .inl first
    · have shorter := before owned j
      exact .inr ⟨k, by linarith, earlier, owned⟩

end path

end Yolov5Rknn.Augmenting

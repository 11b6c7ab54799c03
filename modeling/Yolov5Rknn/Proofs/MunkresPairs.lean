import Yolov5Rknn.Logic.Assignment
import Yolov5Rknn.Proofs.MunkresPhases

/-! The pairs read back from the solver, whatever its numbers are: the stars it ends with
are a permutation of the square matrix, and the pairs its part in the given one. -/

namespace Yolov5Rknn.Munkres
open Program Assignment

variable {F : Type} {n rows cols : Nat}

theorem Complete.row {board : Board F n} (complete : Complete board) (i : Fin n) :
    ∃ j, board.maskMatrix i j = .star := by
  obtain ⟨matched, enough⟩ := complete
  have single : Set.InjOn Prod.fst (stars board.maskMatrix : Set (Fin n × Fin n)) := by
    intro one member two again same
    simp only [stars, Finset.coe_filter, Finset.mem_univ, true_and, Set.mem_ofPred_eq] at member again
    obtain ⟨i, j⟩ := one
    obtain ⟨k, l⟩ := two
    obtain rfl : i = k := same
    obtain rfl := matched.row member again
    rfl
  have all : (stars board.maskMatrix).image Prod.fst = Finset.univ := by
    apply Finset.eq_univ_of_card
    apply le_antisymm (Finset.card_le_univ _)
    rw [Finset.card_image_of_injOn single, Fintype.card_fin]
    exact enough
  have member := Finset.mem_univ i
  rw [← all, Finset.mem_image] at member
  obtain ⟨⟨_, j⟩, star, rfl⟩ := member
  exact ⟨j, (Finset.mem_filter.mp star).2⟩

theorem Complete.places {board : Board F n} (complete : Complete board) :
    ∃ places : Equiv.Perm (Fin n), ∀ i j, board.maskMatrix i j = .star ↔ places i = j := by
  choose place star using complete.row
  have injective : Function.Injective place := by
    intro i k same
    have other := star k
    rw [← same] at other
    exact complete.1.col (star i) other
  refine ⟨.ofBijective place (Finite.injective_iff_bijective.mp injective), fun i j => ?_⟩
  rw [Equiv.ofBijective_apply]
  constructor
  · intro other
    exact complete.1.row (star i) other
  · intro same
    exact same ▸ star i

/-- The stars of the square matrix in the places of the given one. -/
def starred (board : Board F (max rows cols)) : List (Fin rows × Fin cols) :=
  (cells rows cols).filter fun cell => decide (board.maskMatrix (rowIn cell.1) (colIn cell.2) = .star)

theorem starred_inner {board : Board F (max rows cols)} {places : Equiv.Perm (Fin (max rows cols))}
    (stars : ∀ i j, board.maskMatrix i j = .star ↔ places i = j) : starred board = inner places := by
  apply List.filter_congr
  intro cell _
  simp only [stars]

end Yolov5Rknn.Munkres

namespace Yolov5Rknn.HungarianOper
open Program Munkres Assignment

variable {F : Type} [Arithmetic F] {rows cols : Nat}

/-- The solver's matrix holds a zero where a star is. -/
theorem solve_eq (infinite : F → Bool) (costMatrix : Matrix (Fin rows) (Fin cols) F) (inside : 0 < rows ∧ 0 < cols) :
    solve infinite costMatrix =
      loop round (.one, start infinite (replaceNaN costMatrix)) >>= fun board => pure (starred board) := by
  have inside : ¬(rows = 0 ∨ cols = 0) := by omega
  rw [solve, Munkres.solve, if_neg inside, bind_assoc]
  congr 1
  funext board
  rw [pure_bind]
  congr 1
  apply List.filter_congr
  intro cell _
  simp only [Matrix.of_apply, rowIn, colIn]
  split <;> simp_all

theorem solve_pairing (infinite : F → Bool) (costMatrix : Matrix (Fin rows) (Fin cols) F)
    (inside : 0 < rows ∧ 0 < cols) : Keeps (solve infinite costMatrix) Pairing := by
  rw [solve_eq infinite costMatrix inside]
  refine (loop_complete infinite (replaceNaN costMatrix)).bind fun board complete => ?_
  obtain ⟨places, stars⟩ := complete.places
  rw [starred_inner stars]
  exact .pure (inner_pairing places)

end Yolov5Rknn.HungarianOper

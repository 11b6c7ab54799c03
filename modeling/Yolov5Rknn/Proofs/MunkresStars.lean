import Yolov5Rknn.Munkres
import Mathlib.Data.Fintype.Card
import Mathlib.Data.Fintype.Prod
import Mathlib.Data.Finset.Card

/-! The marks of the solver, whatever its numbers are. Stars pair rows with
columns, every covered row holds one prime, and the stars in the columns of the
primes lie in rows covered earlier; so the alternating path is short and turning
it over leaves one star more. -/

namespace Yolov5Rknn.Munkres
open Program

variable {F : Type} {n : Nat} {mask : Matrix (Fin n) (Fin n) Mark} {board : Board F n}

structure Matched (mask : Matrix (Fin n) (Fin n) Mark) : Prop where
  row : ∀ {i j k : Fin n}, mask i j = .star → mask i k = .star → j = k
  col : ∀ {i j k : Fin n}, mask i k = .star → mask j k = .star → i = j

/-- A prime at `start` in a row without star, from which primes and stars lead on.
A star in the column of a prime has the lower rank. -/
structure Trail (mask : Matrix (Fin n) (Fin n) Mark) (start : Fin n × Fin n) (rank : Fin n → Nat) : Prop where
  matched : Matched mask
  primed : mask start.1 start.2 = .prime
  free : ∀ j, mask start.1 j ≠ .star
  single : ∀ {i j k : Fin n}, mask i j = .prime → mask i k = .prime → j = k
  lower : ∀ {i j k : Fin n}, mask i j = .prime → mask k j = .star → rank k < rank i
  onward : ∀ {i j k : Fin n}, mask i j = .prime → mask k j = .star → ∃ l, mask k l = .prime

/-- What `seq` holds of a trail that has reached the prime `last`. -/
structure Laid (mask : Matrix (Fin n) (Fin n) Mark) (rank : Fin n → Nat) (seq : List (Fin n × Fin n))
    (last : Fin n × Fin n) : Prop where
  nodup : seq.Nodup
  reached : last ∈ seq
  marks : ∀ cell ∈ seq, mask cell.1 cell.2 ≠ .normal
  low : ∀ cell ∈ seq, rank last.1 ≤ rank cell.1
  rows : ∀ {i j k : Fin n}, (i, k) ∈ seq → mask i k = .prime → mask i j = .star → (i, j) ∈ seq
  cols : ∀ {i k : Fin n}, (i, k) ∈ seq → mask i k = .prime → (i, k) ≠ last →
    ∃ j, mask j k = .star ∧ (j, k) ∈ seq
  apart : ∀ {i j k : Fin n}, (i, k) ∈ seq → (j, k) ∈ seq → mask i k = .prime → mask j k = .prime → i = j
  partner : ∀ {i k : Fin n}, (i, k) ∈ seq → mask i k = .star → ∃ l, (i, l) ∈ seq ∧ mask i l = .prime
  count : seq.countP (fun cell => mask cell.1 cell.2 = .prime) =
    seq.countP (fun cell => mask cell.1 cell.2 = .star) + 1

variable {rank : Fin n → Nat} {seq : List (Fin n × Fin n)} {start last : Fin n × Fin n}

theorem Trail.laid (trail : Trail mask start rank) : Laid mask rank [start] start where
  nodup := List.nodup_singleton _
  reached := List.mem_singleton_self _
  marks cell member := by
    obtain rfl := List.mem_singleton.mp member
    simp [trail.primed]
  low cell member := by
    obtain rfl := List.mem_singleton.mp member
    exact le_rfl
  rows {i j k} member _ starred := by
    obtain rfl := List.mem_singleton.mp member
    exact absurd starred (trail.free j)
  cols member _ other := absurd (List.mem_singleton.mp member) other
  apart first second _ _ := by
    have same := (List.mem_singleton.mp first).trans (List.mem_singleton.mp second).symm
    exact congrArg Prod.fst same
  partner {i k} member starred := by
    obtain rfl := List.mem_singleton.mp member
    exact absurd starred (trail.free k)
  count := by simp [trail.primed]

/-- The star in the column of the last prime and the prime of its row. -/
theorem Laid.extend (trail : Trail mask start rank) (laid : Laid mask rank seq last)
    (primed : mask last.1 last.2 = .prime) {row col : Fin n} (starred : mask row last.2 = .star)
    (onward : mask row col = .prime) :
    Laid mask rank (seq ++ [(row, last.2)] ++ [(row, col)]) (row, col) := by
  have lower : rank row < rank last.1 := trail.lower primed starred
  have fresh (j : Fin n) : (row, j) ∉ seq := fun member => absurd (laid.low _ member) (Nat.not_le_of_lt lower)
  have member {cell : Fin n × Fin n} :
      cell ∈ seq ++ [(row, last.2)] ++ [(row, col)] ↔ cell ∈ seq ∨ cell = (row, last.2) ∨ cell = (row, col) := by
    simp
  have newStar : ((row, last.2) : Fin n × Fin n) ≠ (row, col) := by
    intro same
    have same : last.2 = col := congrArg Prod.snd same
    rw [same, onward] at starred
    cases starred
  constructor
  · refine List.nodup_append.mpr ⟨List.nodup_append.mpr ⟨laid.nodup, List.nodup_singleton _, ?_⟩,
      List.nodup_singleton _, ?_⟩
    · intro cell inside other single same
      obtain rfl := List.mem_singleton.mp single
      exact fresh _ (same ▸ inside)
    · intro cell inside other single same
      obtain rfl := List.mem_singleton.mp single
      subst same
      obtain old | new := List.mem_append.mp inside
      · exact fresh _ old
      · exact newStar (List.mem_singleton.mp new).symm
  · exact member.mpr (.inr (.inr rfl))
  · intro cell inside
    obtain old | rfl | rfl := member.mp inside
    · exact laid.marks cell old
    · simp [starred]
    · simp [onward]
  · intro cell inside
    obtain old | rfl | rfl := member.mp inside
    · exact lower.le.trans (laid.low cell old)
    · exact le_rfl
    · exact le_rfl
  · intro i j k inside prime star
    obtain old | new | new := member.mp inside
    · exact member.mpr (.inl (laid.rows old prime star))
    · obtain ⟨rfl, rfl⟩ := Prod.mk.inj new
      rw [starred] at prime
      cases prime
    · obtain ⟨rfl, rfl⟩ := Prod.mk.inj new
      rw [trail.matched.row star starred]
      exact member.mpr (.inr (.inl rfl))
  · intro i k inside prime other
    obtain old | new | new := member.mp inside
    · by_cases same : (i, k) = last
      · subst same
        exact ⟨row, starred, member.mpr (.inr (.inl rfl))⟩
      · obtain ⟨j, star, placed⟩ := laid.cols old prime same
        exact ⟨j, star, member.mpr (.inl placed)⟩
    · obtain ⟨rfl, rfl⟩ := Prod.mk.inj new
      rw [starred] at prime
      cases prime
    · exact absurd new other
  · -- the column of the new prime is new: a star in it would lie in a still lower row
    have unused {i : Fin n} (old : (i, col) ∈ seq) (prime : mask i col = .prime) : False := by
      by_cases same : (i, col) = last
      · subst same
        rw [onward] at starred
        cases starred
      · obtain ⟨j, star, placed⟩ := laid.cols old prime same
        have above : rank last.1 ≤ rank j := laid.low _ placed
        have below : rank j < rank row := trail.lower onward star
        omega
    intro i j k first second prime again
    have notStar {i : Fin n} (prime : mask i k = .prime) : (i, k) ≠ (row, last.2) := by
      intro same
      obtain ⟨rfl, rfl⟩ := Prod.mk.inj same
      rw [starred] at prime
      cases prime
    obtain old | new | new := member.mp first
    · obtain placed | new | new := member.mp second
      · exact laid.apart old placed prime again
      · exact absurd new (notStar again)
      · obtain ⟨rfl, rfl⟩ := Prod.mk.inj new
        exact (unused old prime).elim
    · exact absurd new (notStar prime)
    · obtain ⟨rfl, rfl⟩ := Prod.mk.inj new
      obtain placed | new | new := member.mp second
      · exact (unused placed again).elim
      · exact absurd new (notStar again)
      · exact (congrArg Prod.fst new).symm
  · intro i k inside star
    obtain old | new | new := member.mp inside
    · obtain ⟨l, placed, prime⟩ := laid.partner old star
      exact ⟨l, member.mpr (.inl placed), prime⟩
    · obtain ⟨rfl, rfl⟩ := Prod.mk.inj new
      exact ⟨col, member.mpr (.inr (.inr rfl)), onward⟩
    · obtain ⟨rfl, rfl⟩ := Prod.mk.inj new
      rw [onward] at star
      cases star
  · have counted := laid.count
    simp [List.countP_append, starred, onward, counted]

theorem setMark_apply (cell : Fin n × Fin n) (mark : Mark) (row col : Fin n) :
    setMark mask cell mark row col = if (row, col) = cell then mark else mask row col := rfl

theorem augment_apply (distinct : seq.Nodup) (row col : Fin n) :
    augment mask seq row col = if (row, col) ∈ seq then toggle (mask row col) else mask row col := by
  induction seq generalizing mask with
  | nil => rfl
  | cons cell rest ih =>
    obtain ⟨fresh, distinct⟩ := List.nodup_cons.mp distinct
    change augment (setMark mask cell (toggle (mask cell.1 cell.2))) rest row col = _
    rw [ih distinct, setMark_apply]
    by_cases same : (row, col) = cell
    · subst same
      simp [fresh]
    · simp [same]

theorem augmented_star (distinct : seq.Nodup) (row col : Fin n) :
    erasePrimes (augment mask seq) row col = .star ↔
      (row, col) ∈ seq ∧ mask row col = .prime ∨ (row, col) ∉ seq ∧ mask row col = .star := by
  change (if augment mask seq row col = .prime then Mark.normal else augment mask seq row col) = .star ↔ _
  rw [augment_apply distinct]
  by_cases inside : (row, col) ∈ seq <;> cases marked : mask row col <;> simp [inside, toggle]

theorem erasePrimes_ne (row col : Fin n) : erasePrimes mask row col ≠ .prime := by
  change (if mask row col = .prime then Mark.normal else mask row col) ≠ .prime
  split <;> simp_all

theorem Laid.matched (trail : Trail mask start rank) (laid : Laid mask rank seq last)
    (stuck : ∀ row, mask row last.2 ≠ .star) : Matched (erasePrimes (augment mask seq)) := by
  constructor
  · intro i j k one two
    rw [augmented_star laid.nodup] at one two
    obtain ⟨placed, prime⟩ | ⟨absent, star⟩ := one
    · obtain ⟨_, again⟩ | ⟨absent, star⟩ := two
      · exact trail.single prime again
      · exact absurd (laid.rows placed prime star) absent
    · obtain ⟨placed, prime⟩ | ⟨_, again⟩ := two
      · exact absurd (laid.rows placed prime star) absent
      · exact trail.matched.row star again
  · -- a star in the column of a prime of the trail is on the trail
    have closed {i j k : Fin n} (placed : (i, k) ∈ seq) (prime : mask i k = .prime)
        (star : mask j k = .star) : (j, k) ∈ seq := by
      by_cases same : (i, k) = last
      · subst same
        exact absurd star (stuck j)
      · obtain ⟨other, found, inside⟩ := laid.cols placed prime same
        rwa [trail.matched.col star found]
    intro i j k one two
    rw [augmented_star laid.nodup] at one two
    obtain ⟨placed, prime⟩ | ⟨absent, star⟩ := one
    · obtain ⟨inside, again⟩ | ⟨absent, star⟩ := two
      · exact laid.apart placed inside prime again
      · exact absurd (closed placed prime star) absent
    · obtain ⟨placed, prime⟩ | ⟨_, again⟩ := two
      · exact absurd (closed placed prime star) absent
      · exact trail.matched.col star again

def stars (mask : Matrix (Fin n) (Fin n) Mark) : Finset (Fin n × Fin n) :=
  Finset.univ.filter fun cell => mask cell.1 cell.2 = .star

theorem mem_cells {rows cols : Nat} (cell : Fin rows × Fin cols) : cell ∈ cells rows cols :=
  List.pair_mem_product.mpr ⟨List.mem_finRange _, List.mem_finRange _⟩

theorem cells_nodup (rows cols : Nat) : (cells rows cols).Nodup :=
  (List.nodup_finRange rows).product (List.nodup_finRange cols)

theorem covercount_eq (board : Board F n) : covercount board = (stars board.maskMatrix).card := by
  have same : ((cells n n).filter fun cell => decide (board.maskMatrix cell.1 cell.2 = .star)).toFinset =
      stars board.maskMatrix := by
    ext cell
    simp [stars, mem_cells]
  rw [← same, List.toFinset_card_of_nodup ((cells_nodup n n).filter _), ← List.countP_eq_length_filter]
  rfl

/-- Turning the trail over makes one star more. -/
theorem Laid.card_stars (laid : Laid mask rank seq last) :
    (stars (erasePrimes (augment mask seq))).card = (stars mask).card + 1 := by
  let gone := (seq.filter fun cell => decide (mask cell.1 cell.2 = .star)).toFinset
  let new := (seq.filter fun cell => decide (mask cell.1 cell.2 = .prime)).toFinset
  have split : stars (erasePrimes (augment mask seq)) = (stars mask \ gone) ∪ new := by
    ext cell
    simp only [stars, gone, new, Finset.mem_filter, Finset.mem_univ, true_and, Finset.mem_union,
      Finset.mem_sdiff, List.mem_toFinset, List.mem_filter, decide_eq_true_eq]
    rw [augmented_star laid.nodup cell.1 cell.2]
    tauto
  have apart : Disjoint (stars mask \ gone) new := by
    rw [Finset.disjoint_left]
    intro cell star prime
    simp only [stars, new, Finset.mem_filter, Finset.mem_univ, true_and, Finset.mem_sdiff,
      List.mem_toFinset, List.mem_filter, decide_eq_true_eq] at star prime
    rw [star.1] at prime
    cases prime.2
  have inside : gone ⊆ stars mask := by
    intro cell member
    simp only [gone, List.mem_toFinset, List.mem_filter, decide_eq_true_eq] at member
    simp [stars, member.2]
  have counts : new.card = gone.card + 1 := by
    rw [List.toFinset_card_of_nodup (laid.nodup.filter _), List.toFinset_card_of_nodup (laid.nodup.filter _),
      ← List.countP_eq_length_filter, ← List.countP_eq_length_filter]
    exact laid.count
  have fewer := Finset.card_le_card inside
  rw [split, Finset.card_union_of_disjoint apart, Finset.card_sdiff_of_subset inside, counts]
  omega

theorem extendSeq_cases (trail : Trail mask start rank) (laid : Laid mask rank seq last)
    (primed : mask last.1 last.2 = .prime) :
    (extendSeq mask (seq, last.2) = .done seq ∧ ∀ row, mask row last.2 ≠ .star) ∨
      ∃ row col, mask row col = .prime ∧
        Laid mask rank (seq ++ [(row, last.2)] ++ [(row, col)]) (row, col) ∧
        extendSeq mask (seq, last.2) = .again (seq ++ [(row, last.2)] ++ [(row, col)], col) := by
  have fresh {row : Fin n} (starred : mask row last.2 = .star) (col : Fin n) : (row, col) ∉ seq := by
    intro member
    exact absurd (laid.low _ member) (Nat.not_le_of_lt (trail.lower primed starred))
  cases found : (List.finRange n).find? fun row =>
      decide (mask row last.2 = .star) && decide ((row, last.2) ∉ seq) with
  | none =>
    have stuck (row : Fin n) : mask row last.2 ≠ .star := by
      intro starred
      have missing := List.find?_eq_none.mp found row (List.mem_finRange row)
      simp [starred, fresh starred] at missing
    exact .inl ⟨by simp only [extendSeq, found], stuck⟩
  | some row =>
    have starred : mask row last.2 = .star := by
      have picked := List.find?_some found
      simp only [Bool.and_eq_true, decide_eq_true_eq] at picked
      exact picked.1
    obtain ⟨onward, prime⟩ := trail.onward primed starred
    have different {col : Fin n} (prime : mask row col = .prime) : col ≠ last.2 := by
      rintro rfl
      rw [starred] at prime
      cases prime
    cases again : (List.finRange n).find? fun col =>
        decide (mask row col = .prime) && decide ((row, col) ∉ seq ++ [(row, last.2)]) with
    | none =>
      have missing := List.find?_eq_none.mp again onward (List.mem_finRange onward)
      simp [prime, fresh starred, different prime] at missing
    | some col =>
      have prime : mask row col = .prime := by
        have picked := List.find?_some again
        simp only [Bool.and_eq_true, decide_eq_true_eq] at picked
        exact picked.1
      exact .inr ⟨row, col, prime, laid.extend trail primed starred prime, by simp only [extendSeq, found, again]⟩

/-- Nothing is covered and nothing primed, as before `step2`. -/
structure Settled (board : Board F n) : Prop where
  matched : Matched board.maskMatrix
  unprimed : ∀ row col, board.maskMatrix row col ≠ .prime
  rows : ∀ row, board.rowMask row = false
  cols : ∀ col, board.colMask col = false

/-- What `step4` does: one star more, each where a star or a prime was. -/
structure Augmented (board after : Board F n) : Prop where
  settled : Settled after
  matrix : after.matrix = board.matrix
  card : (stars after.maskMatrix).card = (stars board.maskMatrix).card + 1
  origin : ∀ {row col}, after.maskMatrix row col = .star → board.maskMatrix row col ≠ .normal
  remains : ∀ {row col}, board.maskMatrix row col = .star → ∃ other, after.maskMatrix row other = .star

/-- A trail laid to its end. -/
def Finished (mask : Matrix (Fin n) (Fin n) Mark) (rank : Fin n → Nat) (seq : List (Fin n × Fin n)) : Prop :=
  ∃ last, Laid mask rank seq last ∧ ∀ row, mask row last.2 ≠ .star

/-- The state of the loop that lays it. -/
def Laying (mask : Matrix (Fin n) (Fin n) Mark) (rank : Fin n → Nat)
    (path : List (Fin n × Fin n) × Fin n) : Prop :=
  ∃ last, Laid mask rank path.1 last ∧ mask last.1 last.2 = .prime ∧ path.2 = last.2

theorem extendSeq_meets (trail : Trail mask start rank) {path : List (Fin n × Fin n) × Fin n}
    (laying : Laying mask rank path) :
    (extendSeq mask path).Meets
      (fun next => Laying mask rank next ∧ n * n - next.1.length < n * n - path.1.length)
      (Finished mask rank) := by
  obtain ⟨seq, col⟩ := path
  obtain ⟨last, laid, primed, rfl⟩ := laying
  obtain ⟨same, stuck⟩ | ⟨row, col, prime, further, same⟩ := extendSeq_cases trail laid primed
  · rw [same]
    exact ⟨last, laid, stuck⟩
  · rw [same]
    have limit : (seq ++ [(row, last.2)] ++ [(row, col)]).length ≤ n * n := by
      have := further.nodup.length_le_card
      simpa using this
    refine ⟨⟨(row, col), further, prime, rfl⟩, ?_⟩
    simp only [List.length_append, List.length_singleton] at limit ⊢
    omega

theorem step4_augments {seq : List (Fin n × Fin n)} (trail : Trail board.maskMatrix start rank)
    (finished : Finished board.maskMatrix rank seq) :
    Augmented board { board with
      maskMatrix := erasePrimes (augment board.maskMatrix seq)
      rowMask := fun _ => false
      colMask := fun _ => false } := by
  obtain ⟨last, laid, stuck⟩ := finished
  refine ⟨⟨laid.matched trail stuck, erasePrimes_ne, fun _ => rfl, fun _ => rfl⟩, rfl, laid.card_stars, ?_, ?_⟩
  · intro row col star
    obtain ⟨_, prime⟩ | ⟨_, old⟩ := (augmented_star laid.nodup row col).mp star
    · simp [prime]
    · simp [old]
  · intro row col star
    by_cases member : (row, col) ∈ seq
    · obtain ⟨other, placed, prime⟩ := laid.partner member star
      exact ⟨other, (augmented_star laid.nodup row other).mpr (.inl ⟨placed, prime⟩)⟩
    · exact ⟨col, (augmented_star laid.nodup row col).mpr (.inr ⟨member, star⟩)⟩

variable {saverow savecol : Fin n}

theorem step4_keeps (trail : Trail board.maskMatrix (saverow, savecol) rank) :
    Keeps (step4 saverow savecol board) (Augmented board) := by
  have laid : Laying board.maskMatrix rank ([(saverow, savecol)], savecol) :=
    ⟨_, trail.laid, trail.primed, rfl⟩
  have finished : Keeps (loop (fun path => pure (extendSeq board.maskMatrix path)) ([(saverow, savecol)], savecol))
      (Finished board.maskMatrix rank) := by
    refine .loop (Laying board.maskMatrix rank) (fun path laying => ?_) laid
    exact .pure ((extendSeq_meets trail laying).imp (fun _ => And.left) fun _ => id)
  exact finished.bind fun seq found => .pure (step4_augments trail found)

theorem step4_ends (trail : Trail board.maskMatrix (saverow, savecol) rank) :
    Ends (step4 saverow savecol board) (Augmented board) := by
  have laid : Laying board.maskMatrix rank ([(saverow, savecol)], savecol) :=
    ⟨_, trail.laid, trail.primed, rfl⟩
  have founded := (measure fun path : List (Fin n × Fin n) × Fin n => n * n - path.1.length).wf
  have finished : Ends (loop (fun path => pure (extendSeq board.maskMatrix path)) ([(saverow, savecol)], savecol))
      (Finished board.maskMatrix rank) :=
    .loop founded (Laying board.maskMatrix rank)
      (fun _ laying => .pure (extendSeq_meets trail laying)) laid
  exact finished.bind fun seq found => .pure (step4_augments trail found)

end Yolov5Rknn.Munkres

import Yolov5Rknn.PostProcess
import Mathlib.Data.Fin.VecNotation
import Mathlib.Logic.Equiv.Basic
import Mathlib.Order.Basic

/-! `quick_sort_indice_inverse` ends, moves scores and indices of its range together
and leaves the scores of the range in descending order. It does the same in the window of
its range, where it may access nothing else. -/

namespace Yolov5Rknn.PostProcess
open Program

attribute [local instance] Arithmetic.ofField

section arranged

variable {F : Type} {n : Nat} {left right : Int} {before middle after : Sorting F n}

/-- The entries of a range have changed places with each other. -/
def Arranged (left right : Int) (before after : Sorting F n) : Prop :=
  ∃ places : Equiv.Perm (Fin n), (∀ p : Fin n, ¬(left ≤ p.val ∧ p.val ≤ right) → places p = p) ∧
    ∀ p, after.input p = before.input (places p) ∧ after.indices p = before.indices (places p)

theorem Arranged.refl (sorting : Sorting F n) : Arranged left right sorting sorting :=
  ⟨.refl _, fun _ _ => rfl, fun _ => ⟨rfl, rfl⟩⟩

theorem Arranged.trans (first : Arranged left right before middle) (second : Arranged left right middle after) :
    Arranged left right before after := by
  obtain ⟨places, fixed, same⟩ := first
  obtain ⟨later, still, again⟩ := second
  refine ⟨later.trans places, fun p outside => ?_, fun p => ?_⟩
  · rw [Equiv.trans_apply, still p outside, fixed p outside]
  · rw [Equiv.trans_apply, (again p).1, (again p).2]
    exact same (later p)

/-- No value is lost and none is new. -/
theorem Arranged.values {values : F → Prop} (arranged : Arranged left right before after)
    (valued : ∀ p, values (before.input p)) (p : Fin n) : values (after.input p) := by
  obtain ⟨places, _, same⟩ := arranged
  rw [(same p).1]
  exact valued (places p)

theorem Arranged.widen {first last : Int} (arranged : Arranged first last before after) (low : left ≤ first)
    (high : last ≤ right) : Arranged left right before after := by
  obtain ⟨places, fixed, same⟩ := arranged
  exact ⟨places, fun p outside => fixed p fun inside => outside ⟨low.trans inside.1, inside.2.trans high⟩, same⟩

theorem Arranged.outside (arranged : Arranged left right before after) {p : Fin n}
    (outside : ¬(left ≤ p.val ∧ p.val ≤ right)) : after.input p = before.input p := by
  obtain ⟨places, fixed, same⟩ := arranged
  rw [(same p).1, fixed p outside]

/-- What holds of all scores of the range still does. -/
theorem Arranged.transfer (arranged : Arranged left right before after) (holds : F → Prop)
    (all : ∀ p : Fin n, left ≤ p.val → p.val ≤ right → holds (before.input p)) {p : Fin n}
    (low : left ≤ p.val) (high : p.val ≤ right) : holds (after.input p) := by
  obtain ⟨places, fixed, same⟩ := arranged
  rw [(same p).1]
  by_cases inside : left ≤ (places p).val ∧ (places p).val ≤ right
  · exact all _ inside.1 inside.2
  · have still : places p = p := places.injective (fixed (places p) inside)
    rw [still] at inside
    exact absurd ⟨low, high⟩ inside

/-- The vectors with the key back in the hole. -/
def fill (sorting : Sorting F n) (hole : Fin n) (key : F) (keyIndex : Int) : Sorting F n :=
  ⟨Function.update sorting.input hole key, Function.update sorting.indices hole keyIndex⟩

def moved (target source : Fin n) (sorting : Sorting F n) : Sorting F n :=
  fill sorting target (sorting.input source) (sorting.indices source)

theorem fill_other {hole p : Fin n} {sorting : Sorting F n} {key : F} {keyIndex : Int} (different : p ≠ hole) :
    (fill sorting hole key keyIndex).input p = sorting.input p :=
  Function.update_of_ne different ..

theorem fill_hole {hole : Fin n} {sorting : Sorting F n} {key : F} {keyIndex : Int} :
    (fill sorting hole key keyIndex).input hole = key :=
  Function.update_self ..

theorem moved_other {target source p : Fin n} {sorting : Sorting F n} (different : p ≠ target) :
    (moved target source sorting).input p = sorting.input p :=
  fill_other different

theorem moved_target {target source : Fin n} {sorting : Sorting F n} :
    (moved target source sorting).input target = sorting.input source :=
  fill_hole

/-- Moving an entry into the hole exchanges it with the key. -/
theorem fill_moved {target source : Fin n} {sorting : Sorting F n} {key : F} {keyIndex : Int}
    (one : left ≤ target.val ∧ target.val ≤ right) (two : left ≤ source.val ∧ source.val ≤ right) :
    Arranged left right (fill sorting target key keyIndex)
      (fill (moved target source sorting) source key keyIndex) := by
  refine ⟨Equiv.swap target source, fun p outside => ?_, fun p => ?_⟩
  · apply Equiv.swap_apply_of_ne_of_ne
    · intro same
      exact outside (same ▸ one)
    · intro same
      exact outside (same ▸ two)
  · by_cases last : p = source
    · subst last
      simp [fill]
    · by_cases first : p = target
      · subst first
        simp [fill, moved, last, Ne.symm last]
      · simp [fill, moved, last, first, Equiv.swap_apply_of_ne_of_ne first last]

end arranged

/-! ### Windows -/

section window

variable {F : Type} {n : Nat} {window wide : Int → Prop} [DecidablePred window] [DecidablePred wide]

theorem move_inside (target source : Fin n) (sorting : Sorting F n) (one : window target.val)
    (two : window source.val) :
    move window target.val source.val sorting = pure (moved target source sorting) := by
  simp only [move, checked_inside one, checked_inside two, fetch_inside, store_inside, pure_bind]
  rfl

variable (opens : ∀ position, window position → wide position)

include opens

theorem move_restricts {target source : Int} {sorting : Sorting F n} :
    Restricts (move window target source sorting) (move wide target source sorting) := by
  unfold move
  apply (checked_restricts opens).bind
  intro key
  apply (checked_restricts opens).bind
  intro stored
  apply (checked_restricts opens).bind
  intro index
  apply (checked_restricts opens).bind
  intro _
  exact .refl _

variable [Arithmetic F]

theorem scanDown_restricts {key : F} {input : Fin n → F} {low high : Int} :
    Restricts (scanDown window key input low high) (scanDown wide key input low high) := by
  refine .loop (fun high => ?_) high
  split
  · exact (checked_restricts opens).bind fun _ => .refl _
  · exact .refl _

theorem scanUp_restricts {key : F} {input : Fin n → F} {low high : Int} :
    Restricts (scanUp window key input low high) (scanUp wide key input low high) := by
  refine .loop (fun low => ?_) low
  split
  · exact (checked_restricts opens).bind fun _ => .refl _
  · exact .refl _

theorem partitionRound_restricts {key : F} (state : Int × Int × Sorting F n) :
    Restricts (partitionRound window key state) (partitionRound wide key state) := by
  unfold partitionRound
  dsimp only
  split
  · exact (scanDown_restricts opens).bind fun _ => (move_restricts opens).bind fun _ =>
      (scanUp_restricts opens).bind fun _ => (move_restricts opens).bind fun _ => .refl _
  · exact .refl _

/-- What the sort returns in a window it returns in a wider one. -/
theorem quickSort_restricts (depth : Nat) {left right : Int} {sorting : Sorting F n} :
    Restricts (quickSort window depth left right sorting) (quickSort wide depth left right sorting) := by
  induction depth generalizing left right sorting with
  | zero => exact .refl _
  | succ depth ih =>
    unfold quickSort
    split
    · refine (checked_restricts opens).bind fun keyIndex => (checked_restricts opens).bind fun key => ?_
      refine (Restricts.loop (partitionRound_restricts opens) _).bind fun parted => ?_
      exact (checked_restricts opens).bind fun _ => (checked_restricts opens).bind fun _ => ih.bind fun _ => ih
    · exact .refl _

end window

/-- Values any two of which compare, and three in a row. -/
structure Ordered {F : Type} [Arithmetic F] (values : F → Prop) : Prop where
  total : ∀ a b, values a → values b → a ≤ b ∨ b ≤ a
  trans : ∀ a b c, values a → values b → values c → a ≤ b → b ≤ c → a ≤ c

theorem Ordered.refl {F : Type} [Arithmetic F] {values : F → Prop} (ordered : Ordered values) {a : F}
    (value : values a) : a ≤ a :=
  (ordered.total a a value value).elim id id

variable {F : Type} [Arithmetic F] {n : Nat} {key : F} {sorting : Sorting F n}
variable {window : Int → Prop} [DecidablePred window]

theorem scanDown_ends {input : Fin n → F} {low high : Int} (start : 0 ≤ low) (order : low ≤ high) (inside : high < n)
    (opens : ∀ position, low ≤ position → position ≤ high → window position) :
    Ends (scanDown window key input low high) fun found => low ≤ found ∧ found ≤ high ∧
      (∀ p : Fin n, found < p.val → p.val ≤ high → input p ≤ key) ∧
      ∀ p : Fin n, p.val = found → low < found → ¬input p ≤ key := by
  have founded := (measure fun position : Int => (position - low).toNat).wf
  refine Ends.loop founded
    (fun position => low ≤ position ∧ position ≤ high ∧
      ∀ p : Fin n, position < p.val → p.val ≤ high → input p ≤ key)
    (fun position ⟨least, most, passed⟩ => ?_) ⟨order, le_rfl, fun p above below => by omega⟩
  split
  · next more =>
    obtain ⟨p, rfl⟩ : ∃ p : Fin n, position = p.val := ⟨⟨position.toNat, by omega⟩, by simp; omega⟩
    rw [checked_inside (opens _ (by omega) (by omega)), fetch_inside, pure_bind]
    refine .pure ?_
    split
    · next small =>
      refine ⟨⟨by omega, by omega, fun q above below => ?_⟩, ?_⟩
      · obtain rfl | further := eq_or_ne q p
        · exact small
        · exact passed q (by omega) below
      · change (p.val - 1 - low : Int).toNat < (p.val - low : Int).toNat
        omega
    · next large =>
      refine ⟨least, most, passed, fun q same _ => ?_⟩
      obtain rfl : q = p := Fin.ext (by omega)
      exact large
  · exact .pure ⟨least, most, passed, fun p same further => by omega⟩

theorem scanUp_ends {input : Fin n → F} {low high : Int} (start : 0 ≤ low) (order : low ≤ high) (inside : high < n)
    (opens : ∀ position, low ≤ position → position ≤ high → window position) :
    Ends (scanUp window key input low high) fun found => low ≤ found ∧ found ≤ high ∧
      (∀ p : Fin n, low ≤ p.val → p.val < found → key ≤ input p) ∧
      ∀ p : Fin n, p.val = found → found < high → ¬key ≤ input p := by
  have founded := (measure fun position : Int => (high - position).toNat).wf
  refine Ends.loop founded
    (fun position => low ≤ position ∧ position ≤ high ∧
      ∀ p : Fin n, low ≤ p.val → p.val < position → key ≤ input p)
    (fun position ⟨least, most, passed⟩ => ?_) ⟨le_rfl, order, fun p above below => by omega⟩
  split
  · next more =>
    obtain ⟨p, rfl⟩ : ∃ p : Fin n, position = p.val := ⟨⟨position.toNat, by omega⟩, by simp; omega⟩
    rw [checked_inside (opens _ (by omega) (by omega)), fetch_inside, pure_bind]
    refine .pure ?_
    split
    · next large =>
      refine ⟨⟨by omega, by omega, fun q above below => ?_⟩, ?_⟩
      · obtain rfl | further := eq_or_ne q p
        · exact large
        · exact passed q above (by omega)
      · change (high - (p.val + 1) : Int).toNat < (high - p.val : Int).toNat
        omega
    · next small =>
      refine ⟨least, most, passed, fun q same _ => ?_⟩
      obtain rfl : q = p := Fin.ext (by omega)
      exact small
  · exact .pure ⟨least, most, passed, fun p same further => by omega⟩

section split

variable {left right : Int} {started : Sorting F n} {keyIndex : Int}

/-- The outer loop: the hole is at `low`, the scores before it are not below the key and
those after `high` not above it. -/
structure Parting (started : Sorting F n) (left right : Int) (key : F) (keyIndex : Int)
    (low high : Int) (sorting : Sorting F n) : Prop where
  start : 0 ≤ left
  inside : right < n
  bounds : left ≤ low ∧ low ≤ high ∧ high ≤ right
  arranged : ∀ hole : Fin n, hole.val = low → Arranged left right started (fill sorting hole key keyIndex)
  before : ∀ p : Fin n, left ≤ p.val → p.val < low → key ≤ sorting.input p
  after : ∀ p : Fin n, high < p.val → p.val ≤ right → sorting.input p ≤ key

/-- The key is in its place. -/
structure Parted (started : Sorting F n) (left right : Int) (key : F) (keyIndex : Int) (low : Fin n)
    (sorting : Sorting F n) : Prop where
  bounds : left ≤ low.val ∧ low.val ≤ right
  arranged : Arranged left right started (fill sorting low key keyIndex)
  before : ∀ p : Fin n, left ≤ p.val → p.val < low.val → key ≤ sorting.input p
  after : ∀ p : Fin n, low.val < p.val → p.val ≤ right → sorting.input p ≤ key

theorem position {low : Int} (start : 0 ≤ low) (inside : low < n) : ∃ p : Fin n, low = p.val :=
  ⟨⟨low.toNat, by omega⟩, by simp; omega⟩

theorem partitionRound_ends {values : F → Prop} (ordered : Ordered values)
    (valued : ∀ p, values (started.input p))
    (opens : ∀ position, left ≤ position → position ≤ right → window position) {state : Int × Int × Sorting F n}
    (parting : Parting started left right key keyIndex state.1 state.2.1 state.2.2) :
    Ends (partitionRound window key state)
      (Turn.Meets
        (fun next => Parting started left right key keyIndex next.1 next.2.1 next.2.2 ∧
          (next.2.1 - next.1).toNat < (state.2.1 - state.1).toNat)
        fun result => ∃ low : Fin n, result.1 = low.val ∧
          Parted started left right key keyIndex low result.2) := by
  obtain ⟨low, high, sorting⟩ := state
  obtain ⟨start, inside, ⟨least, order, most⟩, arranged, before, after⟩ := parting
  dsimp only at least order most arranged before after ⊢
  obtain ⟨hole, rfl⟩ : ∃ p : Fin n, low = p.val := position (by omega) (by omega)
  have open_ (p : Fin n) (low : left ≤ p.val) (high : p.val ≤ right) : window p.val := opens _ low high
  unfold partitionRound
  dsimp only
  split
  · next more =>
    refine (scanDown_ends (by omega) order (by omega) fun position low high =>
      opens position (by omega) (by omega)).bind fun found ⟨least', most', passed, stopped⟩ => ?_
    obtain ⟨source, rfl⟩ : ∃ p : Fin n, found = p.val := position (by omega) (by omega)
    rw [move_inside hole source _ (open_ _ (by omega) (by omega)) (open_ _ (by omega) (by omega)), pure_bind]
    refine (scanUp_ends (by omega) least' (by omega) fun position low high =>
      opens position (by omega) (by omega)).bind fun next ⟨least'', most'', risen, halted⟩ => ?_
    obtain ⟨last, rfl⟩ : ∃ p : Fin n, next = p.val := position (by omega) (by omega)
    rw [move_inside source last _ (open_ _ (by omega) (by omega)) (open_ _ (by omega) (by omega)), pure_bind]
    refine .pure ?_
    dsimp only [Turn.Meets]
    refine ⟨⟨start, inside, ⟨by omega, most'', by omega⟩, ?_, ?_, ?_⟩, ?_⟩
    · intro other same
      obtain rfl : other = last := Fin.ext (by omega)
      exact (arranged hole rfl).trans
        ((fill_moved ⟨by omega, by omega⟩ ⟨by omega, by omega⟩).trans
          (fill_moved ⟨by omega, by omega⟩ ⟨by omega, by omega⟩))
    · intro p above below
      rw [moved_other (Fin.ne_of_val_ne (by omega))]
      by_cases new : hole.val ≤ p.val
      · exact risen p (by omega) below
      · rw [moved_other (Fin.ne_of_val_ne (by omega))]
        exact before p above (by omega)
    · intro p above below
      rw [moved_other (Fin.ne_of_val_ne (by omega)), moved_other (Fin.ne_of_val_ne (by omega))]
      by_cases new : p.val ≤ high
      · exact passed p above new
      · exact after p (by omega) below
    · -- if `high` has not moved, its score is above the key and lets `low` move
      by_contra stuck
      have unmoved : (source.val : Int) = high ∧ last = hole := ⟨by omega, Fin.ext (by omega)⟩
      obtain rfl := unmoved.2
      have filled := (arranged last rfl).values valued
      have keyed : values key := by simpa only [fill_hole] using filled last
      have scored : values (sorting.input source) :=
        fill_other (Fin.ne_of_val_ne (by omega) : source ≠ last) ▸ filled source
      have large : key ≤ sorting.input source :=
        (ordered.total _ _ keyed scored).resolve_right (stopped source rfl (by omega))
      refine halted last rfl (by omega) ?_
      rw [moved_target]
      exact large
  · exact .pure ⟨hole, rfl, ⟨by omega, by omega⟩, arranged hole rfl,
      fun p above below => before p above (by omega), fun p above below => after p (by omega) below⟩

/-- The scores of a range descend. -/
def Descending (left right : Int) (sorting : Sorting F n) : Prop :=
  ∀ p q : Fin n, left ≤ p.val → p ≤ q → q.val ≤ right → sorting.input q ≤ sorting.input p

/-- Two sorted parts and the key between them. -/
theorem Parted.joined {values : F → Prop} (ordered : Ordered values) (valued : ∀ p, values (started.input p))
    {low : Fin n} {first last : Sorting F n} (parted : Parted started left right key keyIndex low sorting)
    (one : Arranged left (low.val - 1) (fill sorting low key keyIndex) first)
    (descends : Descending left (low.val - 1) first) (two : Arranged (low.val + 1) right first last)
    (lowers : Descending (low.val + 1) right last) :
    Arranged left right started last ∧ Descending left right last := by
  have bounds := parted.bounds
  have center : last.input low = key := by
    rw [two.outside (by omega), one.outside (by omega)]
    exact fill_hole
  have higher (p : Fin n) (least : left ≤ p.val) (most : p.val < low.val) : key ≤ last.input p := by
    rw [two.outside (by omega)]
    refine one.transfer (key ≤ ·) (fun q above below => ?_) least (by omega)
    rw [fill_other (Fin.ne_of_val_ne (by omega))]
    exact parted.before q above (by omega)
  have lower (p : Fin n) (least : low.val < p.val) (most : p.val ≤ right) : last.input p ≤ key := by
    refine two.transfer (· ≤ key) (fun q above below => ?_) (by omega) most
    rw [one.outside (by omega), fill_other (Fin.ne_of_val_ne (by omega))]
    exact parted.after q (by omega) below
  have arranged : Arranged left right started last :=
    parted.arranged.trans ((one.widen le_rfl (by omega)).trans (two.widen (by omega) le_rfl))
  have scored := arranged.values valued
  have keyed : values key := by simpa only [fill_hole] using parted.arranged.values valued low
  refine ⟨arranged, ?_⟩
  intro p q least order most
  have order : p.val ≤ q.val := order
  obtain before | same | after := lt_trichotomy p.val low.val
  · have upper := higher p least before
    obtain below | rfl | above := lt_trichotomy q low
    · rw [two.outside (by omega), two.outside (by omega)]
      exact descends p q least order (by omega)
    · exact center ▸ upper
    · exact ordered.trans _ _ _ (scored q) keyed (scored p) (lower q above most) upper
  · obtain rfl : p = low := Fin.ext same
    obtain rfl | above := eq_or_ne q p
    · exact ordered.refl (scored q)
    · have := lower q (by omega) most
      exact center ▸ this
  · exact lowers p q (by omega) order most

end split

theorem quickSort_level {sorting : Sorting F n} {first : Fin n} {right : Int} (more : first.val < right)
    (opens : window first.val) (depth : Nat) :
    quickSort window (depth + 1) first.val right sorting =
      (loop (partitionRound window (sorting.input first)) (first.val, right, sorting) >>= fun parted => do
        let input ← checked window parted.1 (store parted.2.input parted.1 (sorting.input first))
        let indices ← checked window parted.1 (store parted.2.indices parted.1 (sorting.indices first))
        let sorting ← quickSort window depth first.val (parted.1 - 1) ⟨input, indices⟩
        quickSort window depth (parted.1 + 1) right sorting) := by
  rw [quickSort, if_pos more, checked_inside opens, checked_inside opens, fetch_inside, fetch_inside, pure_bind,
    pure_bind]

/-- The recursion is on the length of the range. -/
theorem quickSort_deep (window : Int → Prop) [DecidablePred window] {values : F → Prop}
    (ordered : Ordered values) (sorting : Sorting F n)
    (valued : ∀ p, values (sorting.input p)) {left right : Int}
    (inside : left ≤ right → 0 ≤ left ∧ right < n)
    (opens : ∀ position, left ≤ position → position ≤ right → window position) :
    Deep (fun depth => quickSort window depth left right sorting) fun after =>
      Arranged left right sorting after ∧ Descending left right after := by
  induction size : (right - left).toNat using Nat.strong_induction_on generalizing left right sorting with
  | _ size ih =>
    by_cases more : left < right
    · obtain ⟨start, bounded⟩ := inside more.le
      obtain ⟨first, rfl⟩ : ∃ p : Fin n, left = p.val := position start (by omega)
      have parting : Parting sorting first.val right (sorting.input first) (sorting.indices first)
          first.val right sorting := by
        refine ⟨start, bounded, ⟨le_rfl, by omega, le_rfl⟩, ?_, fun p above below => by omega,
          fun p above below => by omega⟩
        intro hole same
        obtain rfl : hole = first := Fin.ext (by omega)
        rw [fill, Function.update_eq_self, Function.update_eq_self]
        exact .refl sorting
      have founded := (measure fun state : Int × Int × Sorting F n => (state.2.1 - state.1).toNat).wf
      have split : Ends (loop (partitionRound window (sorting.input first)) ((first.val : Int), right, sorting)) _ :=
        .loop founded (fun state => Parting sorting first.val right (sorting.input first) (sorting.indices first)
          state.1 state.2.1 state.2.2) (fun _ => partitionRound_ends ordered valued opens) parting
      refine .descend (quickSort_level more (opens _ le_rfl more.le)) ?_
      refine split.deep.bind fun (last, parts) ⟨low, same, parted⟩ => ?_
      obtain rfl : last = low.val := same
      have bounds := parted.bounds
      have filled := parted.arranged.values valued
      simp only [checked_inside (opens _ bounds.1 bounds.2), store_inside, pure_bind]
      refine (ih _ (by omega) _ filled (fun _ => ⟨start, by omega⟩)
        (fun position low high => opens position low (by omega)) rfl).bind fun one ⟨arranged, descends⟩ => ?_
      have rest : Deep (fun depth => quickSort window depth (low.val + 1) right one) _ :=
        ih (right - (low.val + 1)).toNat (by omega) one (arranged.values filled) (fun _ => ⟨by omega, bounded⟩)
          (fun position low high => opens position (by omega) high) rfl
      obtain ⟨two, ⟨later, lowers⟩, ended⟩ := rest
      exact ⟨two, parted.joined ordered valued arranged descends later lowers, ended⟩
    · refine .descend (fun depth => by rw [quickSort, if_neg more])
        (Ends.deep (.pure ⟨.refl sorting, fun p q least order most => ?_⟩))
      have order : p.val ≤ q.val := order
      obtain rfl : p = q := Fin.ext (by omega)
      exact ordered.refl (valued p)

/-- The positions of a range. -/
def between (left right position : Int) : Prop := left ≤ position ∧ position ≤ right

instance (left right : Int) : DecidablePred (between left right) := fun _ => inferInstanceAs (Decidable (_ ∧ _))

/-- Scores that compare are sorted by `quick_sort_indice_inverse`, with the same result when
every access outside the range is an error. -/
theorem quickSortIndiceInverse_sorts (sorting : Sorting F n)
    (ordered : Ordered fun value => ∃ p, sorting.input p = value) {left right : Int}
    (inside : left ≤ right → 0 ≤ left ∧ right < n) :
    ∃ after, Arranged left right sorting after ∧ Descending left right after ∧ ∃ bound, ∀ rounds, bound ≤ rounds →
      quickSort (between left right) rounds left right sorting rounds = .ok after ∧
        quickSortIndiceInverse left right sorting rounds = .ok after := by
  obtain ⟨after, ⟨arranged, descends⟩, bound, ended⟩ := quickSort_deep (between left right) ordered sorting
    (fun p => ⟨p, rfl⟩) inside fun position low high => ⟨low, high⟩
  refine ⟨after, arranged, descends, bound, fun rounds enough => ?_⟩
  have returned := ended rounds rounds enough enough
  exact ⟨returned, quickSort_restricts (fun _ _ => trivial) rounds rounds after returned⟩

section exact

variable {K : Type} [Field K] [LinearOrder K]

theorem ordered_exact (values : K → Prop) : Ordered values where
  total a b _ _ := le_total a b
  trans _ _ _ _ _ _ := le_trans

theorem quickSortIndiceInverse_ends (sorting : Sorting K n) {left right : Int} (start : 0 ≤ left)
    (inside : right < n) :
    Ends (quickSortIndiceInverse left right sorting) fun after =>
      Arranged left right sorting after ∧ Descending left right after := by
  obtain ⟨after, holds, bound, ended⟩ := quickSort_deep (between left right) (ordered_exact fun _ => True)
    sorting (fun _ => trivial) (fun _ => ⟨start, inside⟩) fun position low high => ⟨low, high⟩
  exact ⟨after, holds, bound, fun rounds enough =>
    quickSort_restricts (fun _ _ => trivial) rounds rounds after (ended rounds rounds enough enough)⟩

/-- Two scores in ascending order. -/
def ascending : Sorting ℚ 2 := ⟨![1, 2], ![0, 1]⟩

theorem quickSortIndiceInverse_sorts_ascending :
    ∃ after, Arranged 0 1 ascending after ∧ Descending 0 1 after ∧ ∃ bound, ∀ rounds, bound ≤ rounds →
      quickSort (between 0 1) rounds 0 1 ascending rounds = .ok after ∧
        quickSortIndiceInverse 0 1 ascending rounds = .ok after :=
  quickSortIndiceInverse_sorts ascending (ordered_exact _) (by decide)

end exact

end Yolov5Rknn.PostProcess

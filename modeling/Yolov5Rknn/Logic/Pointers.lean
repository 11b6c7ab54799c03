import Mathlib.Data.List.Nodup

/-! Two vectors, pointers into them, and loops that change the element behind one
pointer at a time and push what they have to report. A loop over distinct pointers
sees every element as it was before the loop. -/

namespace Yolov5Rknn.Pointers

universe u v w

structure Vectors (α : Type u) where
  left : List α
  right : List α

inductive Pointer where
  | left (index : Nat)
  | right (index : Nat)
  deriving DecidableEq

/-- One turn of a loop: the pointer it takes, the new value of the element there
and what it pushes. -/
structure Visit (α : Type u) (β : Type v) where
  pointer : Pointer
  body : α → α × List β

variable {α : Type u} {β : Type v} {γ : Type w}

def Vectors.get? (vectors : Vectors α) : Pointer → Option α
  | .left index => vectors.left[index]?
  | .right index => vectors.right[index]?

def Vectors.set (vectors : Vectors α) (value : α) : Pointer → Vectors α
  | .left index => { vectors with left := vectors.left.set index value }
  | .right index => { vectors with right := vectors.right.set index value }

def visit (work : Vectors α × List β) (turn : Visit α β) : Vectors α × List β :=
  match work.1.get? turn.pointer with
  | none => work
  | some value => (work.1.set (turn.body value).1 turn.pointer, work.2 ++ (turn.body value).2)

def visitAll (turns : List (Visit α β)) (work : Vectors α × List β) : Vectors α × List β :=
  turns.foldl visit work

variable {vectors : Vectors α} {work : Vectors α × List β} {turn : Visit α β}
  {turns : List (Visit α β)} {pointer other : Pointer} {value old : α}

theorem get?_set_same (there : vectors.get? pointer = some old) :
    (vectors.set value pointer).get? pointer = some value := by
  cases pointer with
  | left index =>
    obtain ⟨inside, _⟩ := List.getElem?_eq_some_iff.mp there
    exact List.getElem?_set_self inside
  | right index =>
    obtain ⟨inside, _⟩ := List.getElem?_eq_some_iff.mp there
    exact List.getElem?_set_self inside

theorem get?_set_other (apart : other ≠ pointer) :
    (vectors.set value pointer).get? other = vectors.get? other := by
  cases pointer <;> cases other <;> simp only [Vectors.set, Vectors.get?]
  · exact List.getElem?_set_ne (by rintro rfl; exact apart rfl)
  · exact List.getElem?_set_ne (by rintro rfl; exact apart rfl)

theorem visit_there (there : work.1.get? turn.pointer = some old) :
    visit work turn = (work.1.set (turn.body old).1 turn.pointer, work.2 ++ (turn.body old).2) := by
  simp [visit, there]

theorem visit_other (apart : other ≠ turn.pointer) : (visit work turn).1.get? other = work.1.get? other := by
  unfold visit
  split
  · rfl
  · exact get?_set_other apart

@[simp] theorem visitAll_nil (work : Vectors α × List β) : visitAll [] work = work := rfl

@[simp] theorem visitAll_cons (turn : Visit α β) (turns : List (Visit α β)) (work : Vectors α × List β) :
    visitAll (turn :: turns) work = visitAll turns (visit work turn) := rfl

theorem visitAll_append (first last : List (Visit α β)) (work : Vectors α × List β) :
    visitAll (first ++ last) work = visitAll last (visitAll first work) := List.foldl_append

theorem visitAll_other (apart : other ∉ turns.map Visit.pointer) :
    (visitAll turns work).1.get? other = work.1.get? other := by
  induction turns generalizing work with
  | nil => rfl
  | cons turn turns ih =>
    rw [List.map_cons, List.mem_cons, not_or] at apart
    exact (ih apart.2).trans (visit_other apart.1)

theorem visit_isSome : ((visit work turn).1.get? other).isSome = (work.1.get? other).isSome := by
  by_cases same : other = turn.pointer
  · subst same
    cases there : work.1.get? turn.pointer with
    | none => simp [visit, there]
    | some old => simp [visit_there there, get?_set_same there]
  · rw [visit_other same]

theorem visitAll_isSome : ((visitAll turns work).1.get? other).isSome = (work.1.get? other).isSome := by
  induction turns generalizing work with
  | nil => rfl
  | cons turn turns ih => exact ih.trans visit_isSome

/-- What a loop over distinct pointers leaves behind one of them. -/
theorem visitAll_visited (distinct : (turns.map Visit.pointer).Nodup) (member : turn ∈ turns) :
    (visitAll turns work).1.get? turn.pointer =
      (work.1.get? turn.pointer).map fun value => (turn.body value).1 := by
  induction turns generalizing work with
  | nil => cases member
  | cons first turns ih =>
    rw [List.map_cons, List.nodup_cons] at distinct
    obtain rfl | later := List.mem_cons.mp member
    · rw [visitAll_cons, visitAll_other distinct.1]
      cases there : work.1.get? turn.pointer with
      | none => simp [visit, there]
      | some old =>
        rw [visit_there there]
        exact get?_set_same there
    · have apart : turn.pointer ≠ first.pointer := fun same =>
        distinct.1 (same ▸ List.mem_map_of_mem later)
      rw [visitAll_cons, ih distinct.2 later, visit_other apart]

/-- What one turn pushes, if it meets the element as it is in `vectors`. -/
def Visit.pushed (vectors : Vectors α) (turn : Visit α β) : List β :=
  match vectors.get? turn.pointer with
  | none => []
  | some value => (turn.body value).2

/-- What a loop over distinct pointers pushes. -/
theorem visitAll_pushed (distinct : (turns.map Visit.pointer).Nodup) :
    (visitAll turns work).2 = work.2 ++ turns.flatMap (Visit.pushed work.1) := by
  induction turns generalizing work with
  | nil => exact (List.append_nil _).symm
  | cons first turns ih =>
    rw [List.map_cons, List.nodup_cons] at distinct
    have later : ∀ turn ∈ turns, Visit.pushed (visit work first).1 turn = Visit.pushed work.1 turn := by
      intro turn member
      have apart : turn.pointer ≠ first.pointer := fun same =>
        distinct.1 (same ▸ List.mem_map_of_mem member)
      simp only [Visit.pushed, visit_other apart]
    have now : (visit work first).2 = work.2 ++ first.pushed work.1 := by
      unfold visit Visit.pushed
      split <;> simp
    rw [visitAll_cons, ih distinct.2, List.flatMap_cons, now, List.append_assoc]
    congr 2
    exact List.flatMap_congr later

/-- The values of `key` along both vectors. -/
def Vectors.keys (key : α → γ) (vectors : Vectors α) : List γ × List γ :=
  (vectors.left.map key, vectors.right.map key)

theorem set_keys (key : α → γ) (there : vectors.get? pointer = some old) (same : key value = key old) :
    (vectors.set value pointer).keys key = vectors.keys key := by
  cases pointer with
  | left index | right index =>
    obtain ⟨inside, rfl⟩ := List.getElem?_eq_some_iff.mp there
    simp only [Vectors.keys, Vectors.set, List.map_set, same]
    congr 1
    exact List.ext_getElem (by simp) fun position _ _ => by
      simp only [List.getElem_set, List.getElem_map]
      split
      next here => subst here; rfl
      next => rfl

/-- A loop whose bodies keep `key` keeps it along both vectors. -/
theorem visitAll_keys (key : α → γ) (work : Vectors α × List β)
    (kept : ∀ turn ∈ turns, ∀ value, key (turn.body value).1 = key value) :
    (visitAll turns work).1.keys key = work.1.keys key := by
  induction turns generalizing work with
  | nil => rfl
  | cons first turns ih =>
    refine (ih _ fun turn member => kept turn (List.mem_cons_of_mem _ member)).trans ?_
    unfold visit
    split
    · rfl
    next there => exact set_keys key there (kept first List.mem_cons_self _)

section image

variable {α' : Type u}

def Vectors.map (f : α → α') (vectors : Vectors α) : Vectors α' := ⟨vectors.left.map f, vectors.right.map f⟩

@[simp] theorem map_get? (f : α → α') (vectors : Vectors α) (pointer : Pointer) :
    (vectors.map f).get? pointer = (vectors.get? pointer).map f := by
  cases pointer <;> exact List.getElem?_map

theorem map_set (f : α → α') (vectors : Vectors α) (value : α) (pointer : Pointer) :
    (vectors.set value pointer).map f = (vectors.map f).set (f value) pointer := by
  cases pointer <;> simp only [Vectors.set, Vectors.map, List.map_set]

/-- A loop whose bodies do the same on the images of the elements does so as a whole. -/
theorem visitAll_map {f : α → α} {g : β → β} {turns : List (Visit α β)} (work : Vectors α × List β)
    (same : ∀ turn ∈ turns, ∀ value, turn.body (f value) = (f (turn.body value).1, (turn.body value).2.map g)) :
    visitAll turns (work.1.map f, work.2.map g) =
      ((visitAll turns work).1.map f, (visitAll turns work).2.map g) := by
  induction turns generalizing work with
  | nil => rfl
  | cons turn turns ih =>
    have one : visit (work.1.map f, work.2.map g) turn = ((visit work turn).1.map f, (visit work turn).2.map g) := by
      cases there : work.1.get? turn.pointer with
      | none => simp [visit, there]
      | some value => simp [visit, there, same turn List.mem_cons_self, map_set]
    rw [visitAll_cons, visitAll_cons, one]
    exact ih _ fun turn member => same turn (List.mem_cons_of_mem _ member)

end image

/-- Pointers to every element of the left or of the right vector. -/
def lefts (length : Nat) : List Pointer := (List.range length).map .left

def rights (length : Nat) : List Pointer := (List.range length).map .right

theorem lefts_nodup (length : Nat) : (lefts length).Nodup :=
  List.nodup_range.map fun _ _ same => Pointer.left.inj same

theorem rights_nodup (length : Nat) : (rights length).Nodup :=
  List.nodup_range.map fun _ _ same => Pointer.right.inj same

@[simp] theorem left_mem_lefts {index length : Nat} : Pointer.left index ∈ lefts length ↔ index < length := by
  simp [lefts]

@[simp] theorem right_mem_rights {index length : Nat} :
    Pointer.right index ∈ rights length ↔ index < length := by
  simp [rights]

@[simp] theorem right_not_mem_lefts {index length : Nat} : Pointer.right index ∉ lefts length := by
  simp [lefts]

@[simp] theorem left_not_mem_rights {index length : Nat} : Pointer.left index ∉ rights length := by
  simp [rights]

end Yolov5Rknn.Pointers

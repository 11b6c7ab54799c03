import Mathlib.Data.List.Lex
import Mathlib.Order.Lattice

/-! Finite maps whose entries are kept in the order of their keys: what an update leaves at
each key, what many updates leave, and the first key that is not below a bound. -/

namespace Yolov5Rknn.Dictionary

universe u v w

variable {κ : Type u} {ν : Type v} [LinearOrder κ]

def Sorted (entries : List (κ × ν)) : Prop := entries.Pairwise fun first last => first.1 < last.1

def place (key : κ) (change : Option ν → ν) : List (κ × ν) → List (κ × ν)
  | [] => [(key, change none)]
  | entry :: rest =>
    if key < entry.1 then (key, change none) :: entry :: rest
    else if entry.1 < key then entry :: place key change rest
    else (key, change (some entry.2)) :: rest

theorem mem_place {key : κ} {change : Option ν → ν} {entries : List (κ × ν)} {entry : κ × ν}
    (member : entry ∈ place key change entries) : entry.1 = key ∨ entry ∈ entries := by
  induction entries with
  | nil =>
    rw [place] at member
    exact .inl (by rw [List.mem_singleton.mp member])
  | cons first rest ih =>
    rw [place] at member
    split at member
    · cases member with
      | head => exact .inl rfl
      | tail _ later => exact .inr later
    · split at member
      · cases member with
        | head => exact .inr List.mem_cons_self
        | tail _ later => exact (ih later).imp_right (.tail _)
      · cases member with
        | head => exact .inl rfl
        | tail _ later => exact .inr (.tail _ later)

theorem place_sorted {key : κ} {change : Option ν → ν} {entries : List (κ × ν)} (sorted : Sorted entries) :
    Sorted (place key change entries) := by
  induction entries with
  | nil => exact List.pairwise_singleton _ _
  | cons first rest ih =>
    obtain ⟨below, later⟩ := List.pairwise_cons.mp sorted
    rw [place]
    split
    next before =>
      apply List.pairwise_cons.mpr
      refine ⟨?_, sorted⟩
      intro entry member
      cases member with
      | head => exact before
      | tail _ inside => exact before.trans (below entry inside)
    next notBefore =>
      split
      next after =>
        apply List.pairwise_cons.mpr
        refine ⟨?_, ih later⟩
        intro entry member
        cases mem_place member with
        | inl same => rw [same]; exact after
        | inr inside => exact below entry inside
      next notAfter =>
        have same : first.1 = key := le_antisymm (not_lt.mp notBefore) (not_lt.mp notAfter)
        apply List.pairwise_cons.mpr
        refine ⟨?_, later⟩
        intro entry inside
        rw [← same]
        exact below entry inside

def valueAt (key : κ) : List (κ × ν) → Option ν
  | [] => none
  | entry :: rest => if entry.1 = key then some entry.2 else valueAt key rest

theorem valueAt_below {key : κ} {entries : List (κ × ν)} (below : ∀ entry ∈ entries, key < entry.1) :
    valueAt key entries = none := by
  induction entries with
  | nil => rfl
  | cons first rest ih =>
    rw [valueAt, if_neg (below first List.mem_cons_self).ne']
    exact ih fun entry member => below entry (.tail _ member)

theorem valueAt_place {key other : κ} {change : Option ν → ν} {entries : List (κ × ν)} (sorted : Sorted entries) :
    valueAt other (place key change entries) =
      if key = other then some (change (valueAt key entries)) else valueAt other entries := by
  induction entries with
  | nil => rfl
  | cons first rest ih =>
    obtain ⟨below, later⟩ := List.pairwise_cons.mp sorted
    rw [place]
    split
    next before =>
      have absent : valueAt key (first :: rest) = none := by
        apply valueAt_below
        intro entry member
        cases member with
        | head => exact before
        | tail _ inside => exact before.trans (below entry inside)
      rw [absent]
      rfl
    next notBefore =>
      split
      next after =>
        have own : valueAt key (first :: rest) = valueAt key rest := by rw [valueAt, if_neg after.ne]
        rw [own, valueAt, ih later, valueAt]
        by_cases here : first.1 = other
        · rw [if_pos here, if_pos here, if_neg]
          rintro rfl
          exact after.ne here
        · rw [if_neg here, if_neg here]
      next notAfter =>
        have same : first.1 = key := le_antisymm (not_lt.mp notBefore) (not_lt.mp notAfter)
        have own : valueAt key (first :: rest) = some first.2 := by rw [valueAt, if_pos same]
        rw [own, valueAt, valueAt, same]
        by_cases here : key = other
        · rw [if_pos here, if_pos here]
        · rw [if_neg here, if_neg here, if_neg here]

theorem mem_iff_valueAt {entry : κ × ν} {entries : List (κ × ν)} (sorted : Sorted entries) :
    entry ∈ entries ↔ valueAt entry.1 entries = some entry.2 := by
  induction entries with
  | nil => simp [valueAt]
  | cons first rest ih =>
    obtain ⟨below, later⟩ := List.pairwise_cons.mp sorted
    rw [valueAt, List.mem_cons, ih later]
    by_cases same : first.1 = entry.1
    · have absent : valueAt entry.1 rest = none := by
        apply valueAt_below
        rw [← same]
        exact below
      rw [if_pos same, absent]
      constructor
      · rintro (rfl | found)
        · rfl
        · cases found
      · intro found
        exact .inl (Prod.ext same.symm (Option.some.inj found).symm)
    · rw [if_neg same, or_iff_right]
      rintro rfl
      exact same rfl

end Yolov5Rknn.Dictionary

/-- A finite map by its entries. -/
structure Yolov5Rknn.Dictionary (κ : Type u) (ν : Type v) [LinearOrder κ] where
  entries : List (κ × ν)
  sorted : Yolov5Rknn.Dictionary.Sorted entries

namespace Yolov5Rknn.Dictionary

universe u v w

variable {κ : Type u} {ν : Type v} [LinearOrder κ]

def empty : Dictionary κ ν := ⟨[], List.Pairwise.nil⟩

def find? (dictionary : Dictionary κ ν) (key : κ) : Option ν := valueAt key dictionary.entries

/-- The first entry whose key is not below the bound. -/
def lowerBound (dictionary : Dictionary κ ν) (bound : κ) : Option (κ × ν) :=
  dictionary.entries.find? fun entry => !decide (entry.1 < bound)

def update (dictionary : Dictionary κ ν) (key : κ) (change : Option ν → ν) : Dictionary κ ν :=
  ⟨place key change dictionary.entries, place_sorted dictionary.sorted⟩

variable {dictionary : Dictionary κ ν} {key other : κ} {entry : κ × ν}

@[simp] theorem find?_empty (key : κ) : (empty : Dictionary κ ν).find? key = none := rfl

/-- An update changes what is found at its key, and nothing else. -/
theorem find?_update (dictionary : Dictionary κ ν) (key other : κ) (change : Option ν → ν) :
    (dictionary.update key change).find? other =
      if key = other then some (change (dictionary.find? key)) else dictionary.find? other :=
  valueAt_place dictionary.sorted

section
variable {ι : Type w} {items : List ι} {keyOf : ι → κ} {changeOf : ι → Option ν → ν} {key : κ}

/-- What many updates leave at a key is what those at this key leave. -/
theorem find?_updates {own : ι → Bool} (chooses : ∀ item ∈ items, own item = true ↔ keyOf item = key)
    (dictionary : Dictionary κ ν) :
    (items.foldl (fun dictionary item => dictionary.update (keyOf item) (changeOf item)) dictionary).find? key =
      (items.filter own).foldl (fun old item => some (changeOf item old)) (dictionary.find? key) := by
  induction items generalizing dictionary with
  | nil => rfl
  | cons item items ih =>
    have here := chooses item List.mem_cons_self
    rw [List.foldl_cons, ih fun other member => chooses other (.tail _ member), find?_update]
    by_cases same : keyOf item = key
    · rw [if_pos same, List.filter_cons_of_pos (here.mpr same), List.foldl_cons, same]
    · rw [if_neg same, List.filter_cons_of_neg (fun chosen => same (here.mp chosen))]

theorem updates_isSome (dictionary : Dictionary κ ν) :
    ((items.foldl (fun dictionary item => dictionary.update (keyOf item) (changeOf item)) dictionary).find? key).isSome ↔
      (dictionary.find? key).isSome ∨ ∃ item ∈ items, keyOf item = key := by
  induction items generalizing dictionary with
  | nil => simp
  | cons item items ih =>
    rw [List.foldl_cons, ih, find?_update, List.exists_mem_cons_iff]
    by_cases same : keyOf item = key
    · simp [same]
    · simp [same]

end

theorem mem_entries : entry ∈ dictionary.entries ↔ dictionary.find? entry.1 = some entry.2 :=
  mem_iff_valueAt dictionary.sorted

theorem mem_keys : (∃ value, (key, value) ∈ dictionary.entries) ↔ (dictionary.find? key).isSome := by
  rw [Option.isSome_iff_exists]
  exact exists_congr fun value => mem_entries

theorem lowerBound_none {bound : κ} (none : dictionary.lowerBound bound = none) (member : entry ∈ dictionary.entries) :
    entry.1 < bound := by
  have below := List.find?_eq_none.mp none entry member
  simpa using below

theorem lowerBound_some {bound : κ} (found : dictionary.lowerBound bound = some entry) :
    entry ∈ dictionary.entries ∧ bound ≤ entry.1 ∧
      ∀ other ∈ dictionary.entries, bound ≤ other.1 → entry.1 ≤ other.1 := by
  obtain ⟨notBelow, front, back, whole, skipped⟩ := List.find?_eq_some_iff_append.mp found
  have sorted := dictionary.sorted
  rw [whole] at sorted
  have later := (List.pairwise_cons.mp (List.pairwise_append.mp sorted).2.1).1
  refine ⟨List.mem_of_find?_eq_some found, by simpa using notBelow, ?_⟩
  intro other member reaches
  rw [whole] at member
  rcases List.mem_append.mp member with before | after
  · have below := skipped other before
    simp only [Bool.not_not, decide_eq_true_eq] at below
    exact absurd reaches (not_le.mpr below)
  · cases after with
    | head => exact le_refl _
    | tail _ inside => exact (later other inside).le

/-! ### Keys that are texts -/

section
variable {α : Type u} [LinearOrder α] {front text : List α}

/-- The texts that start with `front` come one after the other, and none of them is below it. -/
theorem starts_convex {between : List α} (starts : front <+: text) (above : front ≤ between) (below : between ≤ text) :
    front <+: between := by
  induction front generalizing text between with
  | nil => exact List.nil_prefix
  | cons c front ih =>
    obtain ⟨rest, rfl⟩ := starts
    cases between with
    | nil => exact absurd List.Lex.nil (not_lt.mpr above)
    | cons d between =>
      have notBelow : ¬d < c := fun less => absurd (List.Lex.rel less) (not_lt.mpr above)
      have notAbove : ¬c < d := fun less => absurd (List.Lex.rel less) (not_lt.mpr below)
      obtain rfl := le_antisymm (not_lt.mp notBelow) (not_lt.mp notAbove)
      apply List.cons_prefix_cons.mpr
      refine ⟨rfl, ih (List.prefix_append front rest) ?_ ?_⟩
      · exact not_lt.mp fun less => absurd (List.Lex.cons less) (not_lt.mpr above)
      · exact not_lt.mp fun less => absurd (List.Lex.cons less) (not_lt.mpr below)

theorem starts_le (starts : front <+: text) : front ≤ text := by
  obtain ⟨rest, rfl⟩ := starts
  induction front with
  | nil => exact not_lt.mp fun less => by cases less
  | cons c front ih =>
    apply not_lt.mp
    intro less
    cases less with
    | rel less => exact lt_irrefl c less
    | cons less => exact absurd less (not_lt.mpr ih)

/-- Some key starts with the text exactly when the lower bound of the text does. -/
theorem lowerBound_starts {ν : Type v} (dictionary : Dictionary (List α) ν) (front : List α) :
    (∃ entry, dictionary.lowerBound front = some entry ∧ front <+: entry.1) ↔
      ∃ entry ∈ dictionary.entries, front <+: entry.1 := by
  constructor
  · rintro ⟨entry, found, starts⟩
    exact ⟨entry, (lowerBound_some found).1, starts⟩
  · rintro ⟨entry, member, starts⟩
    have reaches := starts_le starts
    cases found : dictionary.lowerBound front with
    | none => exact absurd reaches (not_le.mpr (lowerBound_none found member))
    | some first =>
      obtain ⟨_, above, least⟩ := lowerBound_some found
      exact ⟨first, rfl, starts_convex starts above (least entry member reaches)⟩

end

end Yolov5Rknn.Dictionary

import Mathlib.Data.List.DropRight

/-! Text between padding. Skipping at the front and stripping at the end commute, leave
the text that was padded, and leave nothing to skip or strip. -/

namespace Yolov5Rknn.Trimming

universe u

variable {α : Type u} {p : α → Bool} {text front back : List α}

/-- Neither end is padding. -/
structure Trimmed (p : α → Bool) (text : List α) : Prop where
  front : ∀ c rest, text = c :: rest → p c = false
  back : ∀ c rest, text = rest ++ [c] → p c = false

def Blank (p : α → Bool) (text : List α) : Prop := ∀ c ∈ text, p c = true

theorem Trimmed.nil : Trimmed p [] where
  front := fun _ _ same => by cases same
  back := fun _ rest same => by cases rest <;> cases same

theorem dropWhile_blank (blank : Blank p front) (text : List α) :
    (front ++ text).dropWhile p = text.dropWhile p :=
  List.dropWhile_append_of_pos blank

theorem rdropWhile_blank (blank : Blank p back) (text : List α) :
    (text ++ back).rdropWhile p = text.rdropWhile p := by
  rw [List.rdropWhile, List.reverse_append, List.dropWhile_append_of_pos]
  · rfl
  · exact fun c member => blank c (List.mem_reverse.mp member)

/-- Text that starts with something else is not skipped. -/
theorem Trimmed.skip (trimmed : Trimmed p text) : text.dropWhile p = text := by
  cases text with
  | nil => rfl
  | cons c rest => exact List.dropWhile_cons_of_neg (by rw [trimmed.front c rest rfl]; simp)

theorem rdropWhile_concat_of_not (rest : List α) {c : α} (own : p c = false) :
    (rest ++ [c]).rdropWhile p = rest ++ [c] :=
  List.rdropWhile_concat_neg p rest c (by rw [own]; simp)

theorem Trimmed.strip (trimmed : Trimmed p text) : text.rdropWhile p = text := by
  rcases List.eq_nil_or_concat text with rfl | ⟨rest, c, rfl⟩
  · rfl
  · rw [List.concat_eq_append] at trimmed ⊢
    exact rdropWhile_concat_of_not rest (trimmed.back c rest rfl)

/-- Stripping stops at the last item that is no padding. -/
theorem rdropWhile_append_cons (text : List α) {c : α} (own : p c = false) (rest : List α) :
    (text ++ c :: rest).rdropWhile p = text ++ c :: rest.rdropWhile p := by
  induction rest using List.reverseRecOn with
  | nil => exact rdropWhile_concat_of_not text own
  | append_singleton rest last ih =>
    cases padded : p last with
    | true =>
      rw [← List.cons_append, ← List.append_assoc, List.rdropWhile_concat_pos p _ last padded, ih,
        List.rdropWhile_concat_pos p _ last padded]
    | false =>
      rw [← List.cons_append, ← List.append_assoc, rdropWhile_concat_of_not _ padded,
        rdropWhile_concat_of_not _ padded, List.append_assoc, List.cons_append]

/-- Padding comes off in either order. -/
theorem skip_strip (trimmed : Trimmed p text) (before : Blank p front) (after : Blank p back) :
    ((front ++ text ++ back).rdropWhile p).dropWhile p = text := by
  rw [rdropWhile_blank after]
  rcases List.eq_nil_or_concat text with rfl | ⟨rest, c, rfl⟩
  · rw [List.append_nil, List.rdropWhile_eq_nil_iff.mpr before]
    rfl
  · rw [List.concat_eq_append] at trimmed ⊢
    rw [← List.append_assoc, rdropWhile_concat_of_not _ (trimmed.back c rest rfl), List.append_assoc,
      dropWhile_blank before]
    exact trimmed.skip

theorem strip_skip (trimmed : Trimmed p text) (before : Blank p front) (after : Blank p back) :
    ((front ++ text ++ back).dropWhile p).rdropWhile p = text := by
  rw [List.append_assoc, dropWhile_blank before]
  cases text with
  | nil =>
    rw [List.nil_append, List.dropWhile_eq_nil_iff.mpr after]
    rfl
  | cons c rest =>
    have first : (c :: rest ++ back).dropWhile p = c :: rest ++ back :=
      List.dropWhile_cons_of_neg (by rw [trimmed.front c rest rfl]; simp)
    rw [first, rdropWhile_blank after]
    exact trimmed.strip

theorem dropWhile_front (c : α) (rest : List α) (same : text.dropWhile p = c :: rest) : p c = false := by
  induction text with
  | nil => cases same
  | cons first text ih =>
    cases own : p first with
    | true => rw [List.dropWhile_cons_of_pos own] at same; exact ih same
    | false =>
      rw [List.dropWhile_cons_of_neg (by rw [own]; simp)] at same
      cases same
      exact own

theorem strip_skip_trimmed (p : α → Bool) (text : List α) : Trimmed p ((text.dropWhile p).rdropWhile p) where
  front := by
    intro c rest same
    obtain ⟨after, whole⟩ := List.rdropWhile_prefix p (text.dropWhile p)
    apply dropWhile_front c (rest ++ after)
    rw [← whole, same]
    rfl
  back := by
    intro c rest same
    have last := List.rdropWhile_last_not p (text.dropWhile p) (by rw [same]; simp)
    simp only [same, List.getLast_append_singleton] at last
    exact Bool.eq_false_iff.mpr last

theorem Trimmed.of_kept (kept : (text.dropWhile p).rdropWhile p = text) : Trimmed p text := by
  rw [← kept]
  exact strip_skip_trimmed p text

/-- Every text is padded trimmed text. -/
theorem padded (p : α → Bool) (text : List α) :
    ∃ front back, Blank p front ∧ Blank p back ∧ text = front ++ (text.dropWhile p).rdropWhile p ++ back := by
  refine ⟨text.takeWhile p, (text.dropWhile p).rtakeWhile p, ?_, ?_, ?_⟩
  · exact fun c member => List.mem_takeWhile_imp member
  · exact fun c member => List.mem_rtakeWhile_imp member
  · rw [List.append_assoc, List.rdropWhile_append_rtakeWhile, List.takeWhile_append_dropWhile]

theorem skip_strip_comm (p : α → Bool) (text : List α) :
    (text.rdropWhile p).dropWhile p = (text.dropWhile p).rdropWhile p := by
  obtain ⟨front, back, before, after, whole⟩ := padded p text
  have same := skip_strip (strip_skip_trimmed p text) before after
  rw [← whole] at same
  exact same

theorem skip_strip_trimmed (p : α → Bool) (text : List α) : Trimmed p ((text.rdropWhile p).dropWhile p) := by
  rw [skip_strip_comm]
  exact strip_skip_trimmed p text

end Yolov5Rknn.Trimming

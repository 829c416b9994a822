import Mathlib.Data.List.TakeWhile
import Mathlib.Data.List.Nodup

/-! A list of distinct elements kept in the order of their use, the most recent one first. -/
namespace RecencyList
variable {α : Type} [DecidableEq α] {l : List α} {x y z : α}

/-- The list after a use of `x`. -/
def touch (x : α) (l : List α) : List α := x :: l.erase x

/-- The elements used after the last use of `x`. -/
def above (x : α) (l : List α) : List α := l.takeWhile fun y => decide (y ≠ x)

theorem above_cons (x y : α) (l : List α) : above x (y :: l) = if y = x then [] else y :: above x l := by
  unfold above
  rw [List.takeWhile_cons]
  by_cases same : y = x
  · rw [if_pos same,decide_eq_false (not_not.mpr same)]
    rfl
  · rw [if_neg same,decide_eq_true same]
    rfl

theorem above_touch (x : α) (l : List α) : above x (touch x l) = [] := by
  unfold touch
  rw [above_cons,if_pos rfl]

theorem mem_touch (x : α) (l : List α) : y ∈ touch x l ↔ y = x ∨ y ∈ l := by
  unfold touch
  rw [List.mem_cons]
  by_cases same : y = x
  · simp only [same,true_or]
  · rw [List.mem_erase_of_ne same]

theorem nodup_touch (distinct : l.Nodup) (x : α) : (touch x l).Nodup :=
  List.nodup_cons.mpr ⟨distinct.not_mem_erase,distinct.erase x⟩

theorem absent_below (distinct : l.Nodup) (x : α) : x ∉ (touch x l).tail := distinct.not_mem_erase

theorem below_sublist (x : α) (l : List α) : (touch x l).tail.Sublist l := List.erase_sublist

theorem above_sublist (x : α) (l : List α) : (above x l).Sublist l := List.takeWhile_sublist _

theorem above_erase (apart : y ≠ x) (member : z ∈ above x (l.erase y)) : z ∈ above x l := by
  induction l with
  | nil => exact member
  | cons w l ih =>
    rw [above_cons]
    by_cases here : w = y
    · subst here
      rw [List.erase_cons_head] at member
      rw [if_neg apart]
      exact List.mem_cons_of_mem _ member
    · rw [List.erase_cons_tail (by simpa using here),above_cons] at member
      split at member
      · exact absurd member List.not_mem_nil
      · rename_i other
        rw [if_neg other]
        rcases List.mem_cons.mp member with rfl | member
        · exact List.mem_cons_self
        · exact List.mem_cons_of_mem _ (ih member)

/-- The use of another element comes on top. -/
theorem mem_above_touch (apart : y ≠ x) (member : z ∈ above x (touch y l)) : z = y ∨ z ∈ above x l := by
  unfold touch at member
  rw [above_cons,if_neg apart] at member
  exact (List.mem_cons.mp member).imp_right (above_erase apart)

theorem above_append (member : x ∈ l) (more : List α) : above x (l ++ more) = above x l := by
  induction l with
  | nil => exact absurd member List.not_mem_nil
  | cons w l ih =>
    rw [List.cons_append,above_cons,above_cons]
    split
    · rfl
    · rename_i other
      rw [ih ((List.mem_cons.mp member).resolve_left (Ne.symm other))]

theorem mem_above_append (more : List α) (member : y ∈ above x l) : y ∈ above x (l ++ more) := by
  induction l with
  | nil => exact absurd member List.not_mem_nil
  | cons w l ih =>
    rw [above_cons] at member
    rw [List.cons_append,above_cons]
    split at member
    · exact absurd member List.not_mem_nil
    · rename_i other
      rw [if_neg other]
      rcases List.mem_cons.mp member with rfl | member
      · exact List.mem_cons_self
      · exact List.mem_cons_of_mem _ (ih member)

theorem length_touch (member : x ∈ l) : (touch x l).length = l.length := by
  unfold touch
  rw [List.length_cons,List.length_erase_of_mem member]
  exact Nat.sub_add_cancel (List.length_pos_of_mem member)

/-- Above the last element is the rest of the list. -/
theorem above_last (absent : x ∉ l) : above x (l ++ [x]) = l := by
  induction l with
  | nil => rw [List.nil_append,above_cons,if_pos rfl]
  | cons w l ih =>
    rw [List.mem_cons,not_or] at absent
    obtain ⟨other,rest⟩ := absent
    rw [List.cons_append,above_cons,if_neg (Ne.symm other),ih rest]

end RecencyList

import Mathlib.Data.List.Basic
import Mathlib.Logic.Function.Basic

/-! A run in which several lists are passed, each in its order, is an interleaving of them. -/
namespace Interleaving

variable {ι α : Type} [DecidableEq ι] {parts others : ι → List α} {whole more : List α}

/-- What the source `i` contributed to a run whose elements are tagged with their sources. -/
def contributed (tags : List (ι × α)) (i : ι) : List α := (tags.filter fun tag => decide (tag.1 = i)).map Prod.snd

/-- The elements of `whole` can be tagged with their sources so that each source contributed its part. -/
def Interleaves (parts : ι → List α) (whole : List α) : Prop :=
  ∃ tags : List (ι × α), tags.map Prod.snd = whole ∧ contributed tags = parts

theorem contributed_append (tags later : List (ι × α)) (i : ι) : contributed (tags ++ later) i = contributed tags i ++ contributed later i := by
  unfold contributed
  rw [List.filter_append,List.map_append]

theorem contributed_singleton (i j : ι) (a : α) : contributed [(i,a)] j = if i = j then [a] else [] := by
  unfold contributed
  by_cases same : i = j
  · rw [List.filter_singleton,if_pos same,decide_eq_true same]
    rfl
  · rw [List.filter_singleton,if_neg same,decide_eq_false same]
    rfl

theorem Interleaves.empty : Interleaves (fun _ : ι => ([] : List α)) [] := ⟨[],rfl,rfl⟩

/-- One source goes on by one element. -/
theorem Interleaves.snoc (run : Interleaves parts whole) (i : ι) (a : α) :
    Interleaves (Function.update parts i (parts i ++ [a])) (whole ++ [a]) := by
  obtain ⟨tags,rfl,rfl⟩ := run
  refine ⟨tags ++ [(i,a)],List.map_append,funext fun j => ?_⟩
  rw [contributed_append,contributed_singleton,Function.update_apply]
  by_cases same : j = i
  · rw [if_pos same.symm,if_pos same,same]
  · rw [if_neg (Ne.symm same),if_neg same,List.append_nil]

/-- One run behind the other. -/
theorem Interleaves.append (run : Interleaves parts whole) (next : Interleaves others more) :
    Interleaves (fun i => parts i ++ others i) (whole ++ more) := by
  obtain ⟨tags,rfl,rfl⟩ := run
  obtain ⟨later,rfl,rfl⟩ := next
  exact ⟨tags ++ later,List.map_append,funext fun i => contributed_append tags later i⟩

/-- A source alone runs its part. -/
theorem Interleaves.alone (run : Interleaves parts whole) (i : ι) (only : ∀ j, j ≠ i → parts j = []) : whole = parts i := by
  obtain ⟨tags,rfl,rfl⟩ := run
  have all : ∀ tag ∈ tags, decide (tag.1 = i) = true := by
    intro tag member
    by_contra other
    rw [decide_eq_true_eq] at other
    have mine : tag.2 ∈ contributed tags tag.1 :=
      List.mem_map.mpr ⟨tag,List.mem_filter.mpr ⟨member,decide_eq_true rfl⟩,rfl⟩
    rw [only tag.1 other] at mine
    exact List.not_mem_nil mine
  unfold contributed
  rw [List.filter_eq_self.mpr all]

end Interleaving

import Mathlib.Data.List.Basic
import Mathlib.Logic.Function.Basic

/-! A table of slots, each of them free or with a key and a value in it. As long as a key
is added only while no slot holds it, the table is a finite map: a key stands for the value
it was added with last, until it is removed. -/
namespace SlotTable

abbrev Table (κ ν : Type) := Nat → Option (κ × ν)

/-- The calls that change a table. -/
inductive Call (κ ν : Type)
  | add (key : κ) (value : ν)
  | remove (key : κ)

variable {κ ν : Type}

def Holds (t : Table κ ν) (k : κ) (v : ν) : Prop := ∃ i, t i = some (k,v)

/-- In a history of calls, `k` was added with `v` and not removed since. -/
def Stands (history : List (Call κ ν)) (k : κ) (v : ν) : Prop :=
  ∃ before after, history = before ++ Call.add k v :: after ∧ Call.remove k ∉ after

/-- The table after the calls of the history. -/
structure Represents (history : List (Call κ ν)) (t : Table κ ν) : Prop where
  distinct : ∀ i j k v w, t i = some (k,v) → t j = some (k,w) → i = j
  holds : ∀ k v, Holds t k v ↔ Stands history k v

variable {history : List (Call κ ν)} {t : Table κ ν} {c : Call κ ν} {i : Nat} {k : κ} {v w : ν}

theorem not_stands_nil : ¬Stands ([] : List (Call κ ν)) k v := by
  rintro ⟨before,after,same,-⟩
  exact absurd same.symm (List.append_ne_nil_of_right_ne_nil _ (List.cons_ne_nil _ _))

/-- One call more. -/
theorem stands_concat : Stands (history ++ [c]) k v ↔ c = Call.add k v ∨ Stands history k v ∧ c ≠ Call.remove k := by
  constructor
  · rintro ⟨before,after,same,kept⟩
    rcases List.eq_nil_or_concat after with rfl | ⟨rest,last,rfl⟩
    · exact Or.inl (List.append_inj_right' same rfl |> List.cons.inj).1
    · rw [List.concat_eq_append,← List.cons_append,← List.append_assoc] at same
      obtain ⟨front,ends⟩ := List.append_inj' same rfl
      rw [List.concat_eq_append,List.mem_append,not_or,List.mem_singleton] at kept
      rw [(List.cons.inj ends).1]
      exact Or.inr ⟨⟨before,rest,front,kept.1⟩,fun here => kept.2 here.symm⟩
  · rintro (rfl | ⟨⟨before,after,rfl,kept⟩,other⟩)
    · exact ⟨history,[],rfl,List.not_mem_nil⟩
    · refine ⟨before,after ++ [c],by rw [List.append_assoc,List.cons_append],fun member => ?_⟩
      rcases List.mem_append.mp member with inside | last
      · exact kept inside
      · exact other (List.mem_singleton.mp last).symm

/-- A table with no key, before any call. -/
theorem represents_empty (free : ∀ i, t i = none) : Represents [] t where
  distinct i _ _ _ _ here _ := absurd here.symm (by rw [free i]; exact Option.some_ne_none _)
  holds _ _ := ⟨fun ⟨i,here⟩ => absurd here.symm (by rw [free i]; exact Option.some_ne_none _),
    fun stands => absurd stands not_stands_nil⟩

/-- A new key goes into a free slot. -/
theorem Represents.add (table : Represents history t) (free : t i = none) (absent : ∀ w, ¬Holds t k w) :
    Represents (history ++ [Call.add k v]) (Function.update t i (some (k,v))) := by
  have entry (j : Nat) (key : κ) (value : ν) : Function.update t i (some (k,v)) j = some (key,value) ↔
      j = i ∧ key = k ∧ value = v ∨ t j = some (key,value) := by
    rw [Function.update_apply]
    split
    · rename_i here
      rw [here,free,Option.some.injEq,Prod.mk.injEq]
      constructor
      · rintro ⟨rfl,rfl⟩
        exact Or.inl ⟨rfl,rfl,rfl⟩
      · rintro (⟨-,rfl,rfl⟩ | clash)
        · exact ⟨rfl,rfl⟩
        · exact absurd clash.symm (Option.some_ne_none _)
    · rename_i other
      exact ⟨Or.inr,fun either => either.resolve_left fun here => other here.1⟩
  refine ⟨fun j l key value other first second => ?_,fun key value => ?_⟩
  · rcases (entry _ _ _).mp first with ⟨here,same,-⟩ | old <;> rcases (entry _ _ _).mp second with ⟨here',same',-⟩ | old'
    · rw [here,here']
    · exact absurd ⟨l,same ▸ old'⟩ (absent other)
    · exact absurd ⟨j,same' ▸ old⟩ (absent value)
    · exact table.distinct j l key value other old old'
  · rw [stands_concat,← table.holds,Call.add.injEq]
    constructor
    · rintro ⟨j,here⟩
      rcases (entry _ _ _).mp here with ⟨-,rfl,rfl⟩ | old
      · exact Or.inl ⟨rfl,rfl⟩
      · exact Or.inr ⟨⟨j,old⟩,nofun⟩
    · rintro (⟨rfl,rfl⟩ | ⟨⟨j,old⟩,-⟩)
      · exact ⟨i,(entry _ _ _).mpr (Or.inl ⟨rfl,rfl,rfl⟩)⟩
      · exact ⟨j,(entry _ _ _).mpr (Or.inr old)⟩

/-- The slot of a key is freed. -/
theorem Represents.remove (table : Represents history t) (here : t i = some (k,w)) :
    Represents (history ++ [Call.remove k]) (Function.update t i none) := by
  have entry (j : Nat) (key : κ) (value : ν) : Function.update t i none j = some (key,value) ↔
      key ≠ k ∧ t j = some (key,value) := by
    rw [Function.update_apply]
    split
    · rename_i same
      refine ⟨fun contrary => absurd contrary.symm (Option.some_ne_none _),fun ⟨other,old⟩ => ?_⟩
      rw [same,here] at old
      exact absurd (Prod.mk.inj (Option.some.inj old)).1.symm other
    · rename_i other
      refine ⟨fun old => ⟨fun same => other ?_,old⟩,fun both => both.2⟩
      exact table.distinct j i k value w (same ▸ old) here
  refine ⟨fun j l key value other first second => ?_,fun key value => ?_⟩
  · exact table.distinct j l key value other ((entry _ _ _).mp first).2 ((entry _ _ _).mp second).2
  · rw [stands_concat,← table.holds]
    constructor
    · rintro ⟨j,old⟩
      obtain ⟨other,old⟩ := (entry _ _ _).mp old
      exact Or.inr ⟨⟨j,old⟩,fun same => other (Call.remove.inj same).symm⟩
    · rintro (same | ⟨⟨j,old⟩,other⟩)
      · exact nomatch same
      · exact ⟨j,(entry _ _ _).mpr ⟨fun same => other (same ▸ rfl),old⟩⟩

end SlotTable

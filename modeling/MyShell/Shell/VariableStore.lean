import Mathlib.Data.List.Basic
import Mathlib.Data.List.Dedup
import Mathlib.Data.List.Nodup
import Mathlib.Data.List.Perm.Subperm
import Mathlib.Data.List.Induction

/-! The variables of the shell in shellmemory.c, as all three assignments have them. A slot whose
name is `none` is free, which no name but this one can see. -/
namespace MyShell.Shell

abbrev Text := List Char

instance : LawfulBEq Text := inferInstanceAs (LawfulBEq (List Char))

/-- `struct memory_struct` -/
structure Slot where
  var : Text
  value : Text

def noneText : Text := ['n','o','n','e']

/-- The shells of the assignments a1, a2 and a3, with the macros they are compiled with and, for
a3, the argument `caller` of `mem_get_value`. -/
inductive Version
  | a1
  | a2 (varMemSize : Nat)
  | a3 (varStoreSize : Nat) (caller : Char)

/-- The number of slots for variables: all of `shellmemory` in a1, those behind the frames in a2 and a3. -/
def Version.size : Version → Nat
  | a1 => 1000
  | a2 varMemSize => varMemSize
  | a3 varStoreSize _ => varStoreSize

/-- What `mem_get_value` answers for a variable that is not there; `none` is the null pointer. -/
def Version.notFound : Version → Option Text
  | a1 => some "Variable does not exist".toList
  | a2 _ => none
  | a3 _ caller => some (if caller = 'p' then "Variable does not exist".toList else [])

/-- `mem_init` -/
def memInit (size : Nat) : List Slot := List.replicate size ⟨noneText,noneText⟩

/-- A loop over the slots that changes the first one with a name and returns. -/
def storeAt (var : Text) (change : Slot → Slot) : List Slot → Option (List Slot)
  | [] => none
  | slot :: slots => if slot.var = var then some (change slot :: slots) else (storeAt var change slots).map (slot :: ·)

def memSetValue (slots : List Slot) (varIn valueIn : Text) : List Slot :=
  match storeAt varIn (fun slot => {slot with value := valueIn}) slots with
  | some slots => slots
  | none => (storeAt noneText (fun _ => ⟨varIn,valueIn⟩) slots).getD slots

def memGetValue (notFound : Option Text) (slots : List Slot) (varIn : Text) : Option Text :=
  match slots.find? fun slot => slot.var == varIn with
  | some slot => some slot.value
  | none => notFound

/-- `reset_var_zone`, or `variable_store_mem_init` in a2 -/
def resetVarZone (slots : List Slot) : List Slot := slots.map fun _ => ⟨noneText,noneText⟩

inductive Call
  | memSetValue (varIn valueIn : Text)
  | resetVarZone

def Call.exec (slots : List Slot) : Call → List Slot
  | .memSetValue varIn valueIn => Shell.memSetValue slots varIn valueIn
  | .resetVarZone => Shell.resetVarZone slots

def run (size : Nat) (calls : List Call) : List Slot := calls.foldl Call.exec (memInit size)

/-- The names and values set since the last reset, the last one first. -/
def setSince (calls : List Call) : List (Text × Text) :=
  calls.foldl (fun sets call => match call with
    | .memSetValue varIn valueIn => (varIn,valueIn) :: sets
    | .resetVarZone => []) []

def names (sets : List (Text × Text)) : List Text := (sets.map Prod.fst).dedup

def lastValue (sets : List (Text × Text)) (var : Text) : Option Text := (sets.find? fun s => s.1 == var).map Prod.snd

/-- The law of a map: the last value set is found, and nothing is found if and only if none was set. -/
structure IsMapAt (version : Version) (calls : List Call) (var : Text) : Prop where
  found : ∀ value, lastValue (setSince calls) var = some value →
    memGetValue version.notFound (run version.size calls) var = some value
  missing : memGetValue version.notFound (run version.size calls) var = version.notFound ↔ lastValue (setSince calls) var = none

/-- Every name that was set after `none` had been set before it. -/
def Undisturbed (sets : List (Text × Text)) : Prop :=
  ∀ s ∈ sets.takeWhile (fun s => s.1 != noneText), s.1 ∈ (sets.dropWhile fun s => s.1 != noneText).map Prod.fst

/-- For a name other than `none`, that its value is not the answer for a variable that is not
there. For the name `none` also that no free slot shows when it was not set, and that its value
was not lost with the slot that took another name. -/
structure Distinguished (version : Version) (sets : List (Text × Text)) (var : Text) : Prop where
  value : ∀ value, lastValue sets var = some value → version.notFound ≠ some value
  full : var = noneText → lastValue sets var = none → version.size ≤ (names sets).length
  undisturbed : var = noneText → ∀ value, lastValue sets var = some value → value = noneText ∨ Undisturbed sets

/-- The value in the first free slot: what was set for `none`, unless another name took that slot. -/
def freeValue : List (Text × Text) → Text
  | [] => noneText
  | (var,value) :: sets =>
    if var = noneText then value else if var ∈ sets.map Prod.fst then freeValue sets else noneText

def freeSlots (sets : List (Text × Text)) : Nat → List Slot
  | 0 => []
  | n+1 => ⟨noneText,freeValue sets⟩ :: List.replicate n ⟨noneText,noneText⟩

/-- The slots after some calls: those of the names set, and the free ones behind them. -/
structure Stores (sets : List (Text × Text)) (used : List Slot) : Prop where
  distinct : (used.map Slot.var).Nodup
  named : ∀ var, var ∈ used.map Slot.var ↔ var ≠ noneText ∧ var ∈ sets.map Prod.fst
  last : ∀ slot ∈ used, lastValue sets slot.var = some slot.value

section
variable {var : Text} {change : Slot → Slot} {slots used l r : List Slot} {slot : Slot} {sets : List (Text × Text)}

theorem storeAt_none (others : ∀ s ∈ slots, s.var ≠ var) : storeAt var change slots = none := by
  induction slots with
  | nil => rfl
  | cons s slots ih =>
    rw [storeAt,if_neg (others s List.mem_cons_self),ih fun s member => others s (List.mem_cons_of_mem _ member)]
    rfl

theorem storeAt_append (others : ∀ s ∈ l, s.var ≠ var) (here : slot.var = var) :
    storeAt var change (l ++ slot :: r) = some (l ++ change slot :: r) := by
  induction l with
  | nil =>
    rw [List.nil_append,storeAt,if_pos here]
    rfl
  | cons s l ih =>
    rw [List.cons_append,storeAt,if_neg (others s List.mem_cons_self),ih fun s member => others s (List.mem_cons_of_mem _ member)]
    rfl

theorem lastValue_cons (sets : List (Text × Text)) (var value x : Text) :
    lastValue ((var,value) :: sets) x = if var = x then some value else lastValue sets x := by
  unfold lastValue
  rw [List.find?_cons]
  by_cases same : var = x
  · rw [if_pos same,beq_iff_eq.mpr same]
    rfl
  · rw [if_neg same,beq_eq_false_iff_ne.mpr same]

theorem lastValue_eq_none : lastValue sets var = none ↔ var ∉ sets.map Prod.fst := by
  unfold lastValue
  rw [Option.map_eq_none_iff,List.find?_eq_none]
  refine ⟨fun others member => ?_,fun absent s member same => absent (List.mem_map.mpr ⟨s,member,beq_iff_eq.mp same⟩)⟩
  obtain ⟨s,inside,same⟩ := List.mem_map.mp member
  exact others s inside (beq_iff_eq.mpr same)

theorem freeSlots_var {n : Nat} (member : slot ∈ freeSlots sets n) : slot.var = noneText := by
  cases n with
  | zero => exact absurd member List.not_mem_nil
  | succ n =>
    rcases List.mem_cons.mp member with rfl | later
    · rfl
    · rw [List.eq_of_mem_replicate later]

theorem length_freeSlots (sets : List (Text × Text)) (n : Nat) : (freeSlots sets n).length = n := by
  cases n with
  | zero => rfl
  | succ n => rw [freeSlots,List.length_cons,List.length_replicate]

namespace Stores

theorem var_ne_none (stores : Stores sets used) (member : slot ∈ used) : slot.var ≠ noneText :=
  ((stores.named slot.var).mp (List.mem_map_of_mem member)).1

/-- One slot more than the names used, at most as many as there are names with this one. -/
theorem length_lt (stores : Stores sets used) (value : Text) (fresh : var ∉ used.map Slot.var) :
    used.length < (names ((var,value) :: sets)).length := by
  have distinct : (var :: used.map Slot.var).Nodup := List.nodup_cons.mpr ⟨fresh,stores.distinct⟩
  have inside : var :: used.map Slot.var ⊆ names ((var,value) :: sets) := by
    intro x member
    refine List.mem_dedup.mpr ?_
    rw [List.map_cons]
    rcases List.mem_cons.mp member with rfl | old
    · exact List.mem_cons_self
    · exact List.mem_cons_of_mem _ ((stores.named x).mp old).2
  have length := (distinct.subperm inside).length_le
  rwa [List.length_cons,List.length_map] at length

/-- The name `none` is given to the first free slot, or to none. -/
theorem set_none (stores : Stores sets used) (value : Text) (n : Nat) :
    memSetValue (used ++ freeSlots sets n) noneText value = used ++ freeSlots ((noneText,value) :: sets) n ∧
      Stores ((noneText,value) :: sets) used := by
  have others : ∀ s ∈ used, s.var ≠ noneText := fun s member => stores.var_ne_none member
  refine ⟨?_,stores.distinct,fun x => ?_,fun s member => ?_⟩
  · unfold memSetValue
    cases n with
    | zero =>
      unfold freeSlots
      rw [List.append_nil,storeAt_none others]
      simp only
      rw [storeAt_none others]
      rfl
    | succ n =>
      unfold freeSlots
      rw [storeAt_append others rfl,freeValue,if_pos rfl]
  · rw [stores.named,List.map_cons,List.mem_cons]
    exact and_congr_right fun other => ⟨Or.inr,fun either => either.resolve_left other⟩
  · rw [lastValue_cons,if_neg (Ne.symm (stores.var_ne_none member))]
    exact stores.last s member

theorem set_known (stores : Stores sets used) (value : Text) (n : Nat) (proper : var ≠ noneText) (known : var ∈ sets.map Prod.fst) :
    ∃ used', memSetValue (used ++ freeSlots sets n) var value = used' ++ freeSlots ((var,value) :: sets) n ∧
      Stores ((var,value) :: sets) used' ∧ used'.length = used.length := by
  obtain ⟨slot,member,rfl⟩ := List.mem_map.mp ((stores.named var).mpr ⟨proper,known⟩)
  obtain ⟨l,r,rfl⟩ := List.append_of_mem member
  have distinct := stores.distinct
  rw [List.map_append,List.map_cons] at distinct
  obtain ⟨-,right,apart⟩ := List.nodup_append.mp distinct
  have before : ∀ s ∈ l, s.var ≠ slot.var :=
    fun s member same => apart _ (List.mem_map_of_mem member) _ List.mem_cons_self same
  have after : ∀ s ∈ r, s.var ≠ slot.var :=
    fun s member same => (List.nodup_cons.mp right).1 (same ▸ List.mem_map_of_mem member)
  have same : (l ++ {slot with value := value} :: r).map Slot.var = (l ++ slot :: r).map Slot.var := by
    rw [List.map_append,List.map_append,List.map_cons,List.map_cons]
  have free : freeSlots ((slot.var,value) :: sets) n = freeSlots sets n := by
    cases n with
    | zero => rfl
    | succ n => rw [freeSlots,freeSlots,freeValue,if_neg proper,if_pos known]
  refine ⟨l ++ {slot with value := value} :: r,?_,⟨?_,fun x => ?_,fun s inside => ?_⟩,by
    rw [List.length_append,List.length_append,List.length_cons,List.length_cons]⟩
  · unfold memSetValue
    rw [List.append_assoc,List.cons_append,storeAt_append before rfl,free,List.append_assoc,List.cons_append]
  · rw [same]
    exact stores.distinct
  · rw [same,stores.named,List.map_cons,List.mem_cons]
    refine and_congr_right fun _ => ⟨Or.inr,fun either => either.elim (fun here => ?_) id⟩
    rw [here]
    exact known
  · rw [lastValue_cons]
    rcases List.mem_append.mp inside with front | back
    · rw [if_neg (Ne.symm (before s front))]
      exact stores.last s (List.mem_append_left _ front)
    · rcases List.mem_cons.mp back with rfl | back
      · rw [if_pos rfl]
      · rw [if_neg (Ne.symm (after s back))]
        exact stores.last s (List.mem_append_right _ (List.mem_cons_of_mem _ back))

theorem set_new (stores : Stores sets used) (value : Text) (n : Nat) (proper : var ≠ noneText) (new : var ∉ sets.map Prod.fst) :
    memSetValue (used ++ freeSlots sets (n+1)) var value = (used ++ [⟨var,value⟩]) ++ freeSlots ((var,value) :: sets) n ∧
      Stores ((var,value) :: sets) (used ++ [⟨var,value⟩]) := by
  have fresh : ∀ s ∈ used, s.var ≠ var :=
    fun s member same => new (((stores.named var).mp (same ▸ List.mem_map_of_mem member)).2)
  refine ⟨?_,?_,fun x => ?_,fun s inside => ?_⟩
  · have missed : ∀ s ∈ used ++ freeSlots sets (n+1), s.var ≠ var := by
      intro s member
      rcases List.mem_append.mp member with old | free
      · exact fresh s old
      · rw [freeSlots_var free]
        exact Ne.symm proper
    have free : List.replicate n ⟨noneText,noneText⟩ = freeSlots ((var,value) :: sets) n := by
      cases n with
      | zero => rfl
      | succ n => rw [freeSlots,freeValue,if_neg proper,if_neg new,List.replicate_succ]
    unfold memSetValue
    rw [storeAt_none missed]
    simp only
    rw [freeSlots,storeAt_append (fun s member => stores.var_ne_none member) rfl,Option.getD_some,free,List.append_assoc,
      List.singleton_append]
  · rw [List.map_append,List.map_singleton]
    refine List.nodup_append.mpr ⟨stores.distinct,List.nodup_singleton _,fun x old y last => ?_⟩
    rw [List.mem_singleton.mp last]
    rintro rfl
    exact new ((stores.named _).mp old).2
  · rw [List.map_append,List.map_singleton,List.mem_append,List.mem_singleton,stores.named,List.map_cons,List.mem_cons]
    constructor
    · rintro (⟨other,old⟩ | rfl)
      · exact ⟨other,Or.inr old⟩
      · exact ⟨proper,Or.inl rfl⟩
    · rintro ⟨other,rfl | old⟩
      · exact Or.inr rfl
      · exact Or.inl ⟨other,old⟩
  · rw [lastValue_cons]
    rcases List.mem_append.mp inside with old | last
    · rw [if_neg (Ne.symm (fresh s old))]
      exact stores.last s old
    · rw [List.mem_singleton.mp last,if_pos rfl]

end Stores

theorem length_storeAt {slots' : List Slot} (stored : storeAt var change slots = some slots') : slots'.length = slots.length := by
  induction slots generalizing slots' with
  | nil => exact absurd stored.symm (Option.some_ne_none _)
  | cons s slots ih =>
    rw [storeAt] at stored
    split at stored
    · rw [← Option.some.inj stored,List.length_cons,List.length_cons]
    · obtain ⟨rest,later,rfl⟩ := Option.map_eq_some_iff.mp stored
      rw [List.length_cons,List.length_cons,ih later]

theorem length_memSetValue (slots : List Slot) (var value : Text) : (memSetValue slots var value).length = slots.length := by
  unfold memSetValue
  cases found : storeAt var (fun slot => {slot with value := value}) slots with
  | some slots' => exact length_storeAt found
  | none =>
    cases free : storeAt noneText (fun _ => ⟨var,value⟩) slots with
    | some slots' => exact length_storeAt free
    | none => rfl

theorem run_concat (size : Nat) (calls : List Call) (call : Call) : run size (calls ++ [call]) = call.exec (run size calls) := by
  unfold run
  rw [List.foldl_append,List.foldl_cons,List.foldl_nil]

theorem length_run (size : Nat) (calls : List Call) : (run size calls).length = size := by
  induction calls using List.reverseRecOn with
  | nil => exact List.length_replicate
  | append_singleton calls call ih =>
    rw [run_concat]
    cases call with
    | memSetValue var value => exact (length_memSetValue _ _ _).trans ih
    | resetVarZone => exact (List.length_map _).trans ih

theorem setSince_set (calls : List Call) (var value : Text) :
    setSince (calls ++ [.memSetValue var value]) = (var,value) :: setSince calls := by
  unfold setSince
  rw [List.foldl_append,List.foldl_cons,List.foldl_nil]

theorem setSince_reset (calls : List Call) : setSince (calls ++ [.resetVarZone]) = [] := by
  unfold setSince
  rw [List.foldl_append,List.foldl_cons,List.foldl_nil]

theorem names_cons (s : Text × Text) (sets : List (Text × Text)) : (names sets).length ≤ (names (s :: sets)).length := by
  unfold names
  rw [List.map_cons]
  by_cases known : s.1 ∈ sets.map Prod.fst
  · exact Nat.le_of_eq (congrArg List.length (List.dedup_cons_of_mem known)).symm
  · rw [List.dedup_cons_of_notMem known]
    exact Nat.le_succ _

theorem stores_nil : Stores [] [] :=
  ⟨List.nodup_nil,fun _ => iff_of_false List.not_mem_nil fun both => List.not_mem_nil both.2,
    fun _ member => absurd member List.not_mem_nil⟩

theorem replicate_free (n : Nat) : List.replicate n ⟨noneText,noneText⟩ = freeSlots [] n := by
  cases n with
  | zero => rfl
  | succ n => exact List.replicate_succ

/-- As long as there are no more names than slots, each has a slot of its own. -/
theorem run_stores (size : Nat) (calls : List Call) (fits : (names (setSince calls)).length ≤ size) :
    ∃ used n, run size calls = used ++ freeSlots (setSince calls) n ∧ Stores (setSince calls) used ∧ used.length + n = size := by
  induction calls using List.reverseRecOn with
  | nil => exact ⟨[],size,replicate_free size,stores_nil,Nat.zero_add size⟩
  | append_singleton calls call ih =>
    rw [run_concat]
    cases call with
    | resetVarZone =>
      rw [setSince_reset]
      refine ⟨[],size,?_,stores_nil,Nat.zero_add size⟩
      rw [Call.exec,resetVarZone,List.map_const',length_run]
      exact replicate_free size
    | memSetValue var value =>
      rw [setSince_set] at fits ⊢
      obtain ⟨used,n,slots,stores,total⟩ := ih (Nat.le_trans (names_cons _ _) fits)
      rw [Call.exec,slots]
      by_cases proper : var = noneText
      · subst proper
        obtain ⟨same,after⟩ := stores.set_none value n
        exact ⟨used,n,same,after,total⟩
      · by_cases known : var ∈ (setSince calls).map Prod.fst
        · obtain ⟨used',same,after,length⟩ := stores.set_known value n proper known
          exact ⟨used',n,same,after,length ▸ total⟩
        · have fresh : var ∉ used.map Slot.var := fun member => known ((stores.named var).mp member).2
          have room := stores.length_lt value fresh
          obtain ⟨n,rfl⟩ : ∃ k, n = k + 1 := ⟨n - 1,by omega⟩
          obtain ⟨same,after⟩ := stores.set_new value n proper known
          refine ⟨_,n,same,after,?_⟩
          rw [List.length_append,List.length_singleton]
          omega

theorem memGetValue_proper {notFound : Option Text} {n : Nat} (stores : Stores sets used) (proper : var ≠ noneText) :
    memGetValue notFound (used ++ freeSlots sets n) var = (lastValue sets var).or notFound := by
  unfold memGetValue
  cases found : (used ++ freeSlots sets n).find? fun slot => slot.var == var with
  | some slot =>
    have here : slot.var = var := beq_iff_eq.mp (List.find?_some (p := fun slot : Slot => slot.var == var) found)
    have member : slot ∈ used := by
      refine (List.mem_append.mp (List.mem_of_find?_eq_some found)).resolve_right fun free => ?_
      exact proper (here.symm.trans (freeSlots_var free))
    rw [← here,stores.last slot member,Option.some_or]
  | none =>
    have absent : var ∉ sets.map Prod.fst := by
      intro known
      obtain ⟨slot,member,here⟩ := List.mem_map.mp ((stores.named var).mpr ⟨proper,known⟩)
      exact List.find?_eq_none.mp found slot (List.mem_append_left _ member) (beq_iff_eq.mpr here)
    rw [lastValue_eq_none.mpr absent,Option.none_or]

theorem memGetValue_none {notFound : Option Text} (stores : Stores sets used) (n : Nat) :
    memGetValue notFound (used ++ freeSlots sets n) noneText = if n = 0 then notFound else some (freeValue sets) := by
  have others : used.find? (fun slot => slot.var == noneText) = none :=
    List.find?_eq_none.mpr fun slot member same => stores.var_ne_none member (beq_iff_eq.mp same)
  unfold memGetValue
  rw [List.find?_append,others,Option.none_or]
  cases n with
  | zero => rfl
  | succ n => rfl

theorem freeValue_unset (unset : noneText ∉ sets.map Prod.fst) : freeValue sets = noneText := by
  induction sets with
  | nil => rfl
  | cons s sets ih =>
    rw [List.map_cons,List.mem_cons,not_or] at unset
    rw [freeValue,if_neg (Ne.symm unset.1),ih unset.2,ite_self]

theorem undisturbed_cons {value : Text} (proper : var ≠ noneText) :
    Undisturbed ((var,value) :: sets) ↔ var ∈ (sets.dropWhile fun s => s.1 != noneText).map Prod.fst ∧ Undisturbed sets := by
  have other : (fun s : Text × Text => s.1 != noneText) (var,value) = true := bne_iff_ne.mpr proper
  unfold Undisturbed
  rw [List.takeWhile_cons_of_pos (p := fun s : Text × Text => s.1 != noneText) other,
    List.dropWhile_cons_of_pos (p := fun s : Text × Text => s.1 != noneText) other,List.forall_mem_cons]

/-- The value set for `none` is there until a new name takes its slot. -/
theorem freeValue_set {value : Text} (last : lastValue sets noneText = some value) :
    (Undisturbed sets → freeValue sets = value) ∧ (¬Undisturbed sets → freeValue sets = noneText) := by
  induction sets with
  | nil => exact absurd last.symm (Option.some_ne_none _)
  | cons s sets ih =>
    obtain ⟨var,set⟩ := s
    rw [lastValue_cons] at last
    rw [freeValue]
    by_cases proper : var = noneText
    · subst proper
      rw [if_pos rfl] at last ⊢
      refine ⟨fun _ => Option.some.inj last,fun disturbed => absurd (fun s member => ?_) disturbed⟩
      rw [List.takeWhile_cons_of_neg (by simp)] at member
      exact absurd member List.not_mem_nil
    · rw [if_neg proper] at last ⊢
      obtain ⟨kept,lost⟩ := ih last
      rw [undisturbed_cons proper]
      constructor
      · rintro ⟨before,undisturbed⟩
        have known : var ∈ sets.map Prod.fst := List.map_subset _ (List.dropWhile_subset _) before
        rw [if_pos known,kept undisturbed]
      · intro disturbed
        by_cases undisturbed : Undisturbed sets
        · have new : var ∉ sets.map Prod.fst := by
            intro known
            rw [← List.takeWhile_append_dropWhile (p := fun s => s.1 != noneText) (l := sets),List.map_append] at known
            refine disturbed ⟨(List.mem_append.mp known).elim (fun since => ?_) id,undisturbed⟩
            obtain ⟨s,member,rfl⟩ := List.mem_map.mp since
            exact undisturbed s member
          rw [if_neg new]
        · rw [lost undisturbed,ite_self]

end

theorem Version.notFound_ne_none (version : Version) : version.notFound ≠ some noneText := by
  cases version with
  | a1 => decide
  | a2 => exact fun contrary => Option.some_ne_none _ contrary.symm
  | a3 varStoreSize caller =>
    rw [notFound]
    by_cases print : caller = 'p'
    · rw [if_pos print]
      decide
    · rw [if_neg print]
      decide

/-- The slots are full when all names set have one and there are as many. -/
theorem Stores.length_eq {sets : List (Text × Text)} {used : List Slot} (stores : Stores sets used)
    (unset : noneText ∉ sets.map Prod.fst) : used.length = (names sets).length := by
  have same : (used.map Slot.var).Perm (names sets) := by
    refine (List.perm_ext_iff_of_nodup stores.distinct (List.nodup_dedup _)).mpr fun x => ?_
    rw [stores.named,List.mem_dedup]
    exact and_iff_right_of_imp fun member same => unset (same ▸ member)
  rw [← List.length_map Slot.var,same.length_eq]

/-- While the name `none` has a value there is a free slot for it. -/
theorem Stores.length_lt_of_set {sets : List (Text × Text)} {used : List Slot} (stores : Stores sets used)
    (set : noneText ∈ sets.map Prod.fst) : used.length < (names sets).length := by
  have fresh : noneText ∉ used.map Slot.var := fun member => ((stores.named noneText).mp member).1 rfl
  have more := stores.length_lt noneText fresh
  unfold names at more
  rwa [List.map_cons,List.dedup_cons_of_mem set] at more

theorem IsMapAt.value {version : Version} {calls : List Call} {var value : Text} (isMap : IsMapAt version calls var)
    (last : lastValue (setSince calls) var = some value) : version.notFound ≠ some value := by
  intro same
  have unset := isMap.missing.mp ((isMap.found value last).trans same.symm)
  exact Option.some_ne_none value (last.symm.trans unset)

theorem isMapAt_proper {version : Version} {calls : List Call} {var : Text} (proper : var ≠ noneText)
    (answer : memGetValue version.notFound (run version.size calls) var = (lastValue (setSince calls) var).or version.notFound) :
    IsMapAt version calls var ↔ Distinguished version (setSince calls) var := by
  refine ⟨fun isMap => ⟨fun _ => isMap.value,fun same => absurd same proper,fun same => absurd same proper⟩,fun distinguished => ?_⟩
  refine ⟨fun value last => ?_,?_⟩
  · rw [answer,last,Option.some_or]
  · rw [answer]
    cases last : lastValue (setSince calls) var with
    | none => rw [Option.none_or,eq_self,eq_self]
    | some value =>
      rw [Option.some_or]
      exact iff_of_false (Ne.symm (distinguished.value value last)) (Option.some_ne_none _)

theorem isMapAt_none {version : Version} {calls : List Call} {used : List Slot} {n : Nat}
    (stores : Stores (setSince calls) used) (total : used.length + n = version.size)
    (fits : (names (setSince calls)).length ≤ version.size)
    (answer : memGetValue version.notFound (run version.size calls) noneText =
      if n = 0 then version.notFound else some (freeValue (setSince calls))) :
    IsMapAt version calls noneText ↔ Distinguished version (setSince calls) noneText := by
  cases last : lastValue (setSince calls) noneText with
  | none =>
    have unset := lastValue_eq_none.mp last
    have length := stores.length_eq unset
    rw [freeValue_unset unset] at answer
    constructor
    · intro isMap
      refine ⟨fun _ => isMap.value,fun _ _ => ?_,fun _ value set => absurd (last.symm.trans set).symm (Option.some_ne_none _)⟩
      have missing := isMap.missing.mpr last
      rw [answer] at missing
      by_contra room
      rw [if_neg (by omega)] at missing
      exact version.notFound_ne_none missing.symm
    · intro distinguished
      have full := distinguished.full rfl last
      rw [if_pos (by omega)] at answer
      exact ⟨fun value set => absurd (last.symm.trans set).symm (Option.some_ne_none _),iff_of_true answer last⟩
  | some value =>
    have set : noneText ∈ (setSince calls).map Prod.fst := by
      by_contra unset
      exact absurd (last.symm.trans (lastValue_eq_none.mpr unset)) (Option.some_ne_none _)
    have room := stores.length_lt_of_set set
    obtain ⟨kept,lost⟩ := freeValue_set last
    rw [if_neg (by omega)] at answer
    constructor
    · intro isMap
      refine ⟨fun _ => isMap.value,fun _ unset => absurd (last.symm.trans unset) (Option.some_ne_none _),fun _ other set => ?_⟩
      have found := isMap.found other set
      rw [answer] at found
      rw [← Option.some.inj found]
      by_cases undisturbed : Undisturbed (setSince calls)
      · exact Or.inr undisturbed
      · exact Or.inl (lost undisturbed)
    · intro distinguished
      have same : freeValue (setSince calls) = value := by
        by_cases undisturbed : Undisturbed (setSince calls)
        · exact kept undisturbed
        · rw [lost undisturbed]
          exact ((distinguished.undisturbed rfl value last).resolve_right undisturbed).symm
      rw [same] at answer
      refine ⟨fun other set => ?_,?_⟩
      · rw [answer,← last,set]
      · rw [answer,last]
        exact iff_of_false (Ne.symm (distinguished.value value last)) (Option.some_ne_none _)

/-- With no more names than slots the store is a map at exactly the names and histories that are distinguished. -/
theorem store_is_map_iff (version : Version) (calls : List Call) (var : Text)
    (fits : (names (setSince calls)).length ≤ version.size) :
    IsMapAt version calls var ↔ Distinguished version (setSince calls) var := by
  obtain ⟨used,n,slots,stores,total⟩ := run_stores version.size calls fits
  by_cases proper : var = noneText
  · subst proper
    exact isMapAt_none stores total fits (slots ▸ memGetValue_none stores n)
  · exact isMapAt_proper proper (slots ▸ memGetValue_proper stores proper)

theorem store_is_map_two : IsMapAt (.a3 10 'p') [.memSetValue ['x'] ['1'],.resetVarZone,.memSetValue ['y'] ['2'],.memSetValue ['y'] ['3']]
    ['y'] := by
  refine (store_is_map_iff (.a3 10 'p') _ ['y'] (by decide)).mpr ⟨fun value last => ?_,fun same => ?_,fun same => ?_⟩
  · obtain rfl : ['3'] = value := Option.some.inj last
    decide
  · exact absurd same (by decide)
  · exact absurd same (by decide)

/-- The name `none` has a value before one was set. -/
theorem store_is_no_map : ¬∀ (version : Version) (calls : List Call) (var : Text),
    (names (setSince calls)).length ≤ version.size → IsMapAt version calls var := by
  intro all
  have missing := (all (.a3 10 'p') [] noneText (by decide)).missing.mpr rfl
  exact absurd missing (by decide)

end MyShell.Shell

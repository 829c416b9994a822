import MyShell.Demand.Turn

/-! The history of a run of the round-robin loop: each process executes its lines and loads its pages in order,
and the page that goes is the one used least recently, all its lines executed. -/
namespace MyShell.Demand
open RecencyList

def Event.used : Event → Option (Nat × Nat)
  | .executed page _ => some page
  | .loaded page => some page
  | .evicted _ => none

def Event.executedBy (p : Nat) : Event → Option (Nat × Text)
  | .executed page line => if page.1 = p then some (page.2,line) else none
  | .loaded _ => none
  | .evicted _ => none

def Event.loadedBy (p : Nat) : Event → Option Nat
  | .executed _ _ => none
  | .loaded page => if page.1 = p then some page.2 else none
  | .evicted _ => none

/-- The uses of pages, the latest one first. -/
def uses (history : List Event) : List (Nat × Nat) := history.filterMap Event.used

/-- The lines that a process has executed, each with its page, the latest one first. -/
def executions (p : Nat) (history : List Event) : List (Nat × Text) := history.filterMap (Event.executedBy p)

/-- The pages that a process has loaded, the latest one first. -/
def loads (p : Nat) (history : List Event) : List Nat := history.filterMap (Event.loadedBy p)

/-- The pages that were loaded and have not gone since. -/
def residents : List Event → List (Nat × Nat)
  | [] => []
  | .executed _ _ :: history => residents history
  | .loaded page :: history => page :: residents history
  | .evicted page :: history => (residents history).erase page

/-- Each page was resident when it went, no other resident page had been used longer ago, and all its lines
had been executed. -/
def EvictsOldest (script : Nat → List Text) (history : List Event) : Prop :=
  ∀ newer page older, history = newer ++ .evicted page :: older →
    page ∈ residents older ∧ (∀ other ∈ residents older, other ≠ page → other ∈ above page (uses older)) ∧
      min (script page.1).length (3*page.2 + 3) ≤ (executions page.1 older).length

section
variable {frames : Nat} {script : Nat → List Text} {pids : Finset Nat} {s : Progress}

/-- The first lines of a script with their pages. -/
def firstLines (lines : List Text) (count : Nat) : List (Nat × Text) :=
  (List.range count).map fun n => (n/3,lines.getD n [])

theorem firstLines_succ (lines : List Text) (count : Nat) :
    (firstLines lines (count+1)).reverse = (count/3,lines.getD count []) :: (firstLines lines count).reverse := by
  unfold firstLines
  rw [List.range_succ,List.map_append,List.reverse_append]
  rfl

structure Recorded (script : Nat → List Text) (s : Progress) : Prop where
  within : ∀ p, s.done p ≤ (script p).length
  most : ∀ p, s.loaded p ≤ pagesOf (script p).length
  executed : ∀ p, executions p s.history = (firstLines (script p) (s.done p)).reverse
  loaded : ∀ p, loads p s.history = (List.range (s.loaded p)).reverse
  recent : s.resident.Pairwise fun x y => x ∈ above y (uses s.history)
  used : ∀ page ∈ s.resident, page ∈ uses s.history
  kept : ∀ page, page ∈ residents s.history ↔ page ∈ s.resident
  once : (residents s.history).Nodup
  evicts : EvictsOldest script s.history

theorem EvictsOldest.other {history : List Event} (before : EvictsOldest script history) (event : Event)
    (kind : ∀ page, event ≠ .evicted page) : EvictsOldest script (event :: history) := by
  intro newer page older split
  cases newer with
  | nil => exact absurd (List.cons.inj split).1 (kind page)
  | cons _ newer => exact before newer page older (List.cons.inj split).2

/-- A use of a page is one that comes after the last uses of the others. -/
theorem recent_cons {pages uses : List (Nat × Nat)} {page : Nat × Nat}
    (recent : pages.Pairwise fun x y => x ∈ above y uses) (absent : page ∉ pages) :
    (page :: pages).Pairwise fun x y => x ∈ above y (page :: uses) := by
  have apart : ∀ y ∈ pages, page ≠ y := fun y member same => absent (same ▸ member)
  refine List.pairwise_cons.mpr ⟨fun y member => ?_,recent.imp_of_mem fun {x y} _ member older => ?_⟩
  · rw [above_cons,if_neg (apart y member)]
    exact List.mem_cons_self
  · rw [above_cons,if_neg (apart y member)]
    exact List.mem_cons_of_mem _ older

namespace Recorded

theorem useLine (recorded : Recorded script s) (p : Nat) (distinct : s.resident.Nodup)
    (unfinished : s.done p < (script p).length) (resident : (p,s.done p/3) ∈ s.resident) :
    Recorded script (useLine script s p) where
  within q := by
    unfold Demand.useLine
    simp only [Function.update_apply]
    split
    · rename_i same
      exact same ▸ unfinished
    · exact recorded.within q
  most := recorded.most
  executed q := by
    unfold Demand.useLine executions
    rw [List.filterMap_cons]
    simp only [Event.executedBy,Function.update_apply]
    have before := recorded.executed q
    unfold executions at before
    rcases eq_or_ne p q with rfl | other
    · simp only [if_true]
      rw [firstLines_succ,before]
    · rw [if_neg other,if_neg (Ne.symm other)]
      exact before
  loaded := recorded.loaded
  recent := recent_cons (recorded.recent.sublist (below_sublist _ _)) (absent_below distinct _)
  used page member := by
    refine List.mem_cons.mpr ?_
    exact ((mem_touch _ _).mp member).imp_right (recorded.used page)
  kept page := by
    refine (recorded.kept page).trans ((mem_touch _ _).trans ⟨fun old => ?_,Or.inr⟩).symm
    exact old.elim (fun same => same ▸ resident) id
  once := recorded.once
  evicts := recorded.evicts.other _ fun _ same => Event.noConfusion same

/-- The page used least recently goes, if the frames are full. -/
theorem roomFor (recorded : Recorded script s) (distinct : s.resident.Nodup)
    (known : ∀ page ∈ s.resident, page.2 < s.loaded page.1)
    (spare : ¬s.resident.length < frames → ∀ page, s.resident.getLast? = some page → ¬Needed script s page) :
    Recorded script (roomFor frames s) := by
  unfold Demand.roomFor
  split
  · exact recorded
  · rename_i full
    rcases List.eq_nil_or_concat s.resident with none | ⟨front,page,split⟩
    · have same : {s with
          resident := s.resident.dropLast
          history := (s.resident.getLast?.map Event.evicted).toList ++ s.history} = s := by
        obtain ⟨done,loaded,queue,resident,history⟩ := s
        simp only at none
        subst none
        rfl
      rw [same]
      exact recorded
    · rw [List.concat_eq_append] at split
      have last : s.resident.getLast? = some page := by rw [split,List.getLast?_concat]
      have member : page ∈ s.resident := List.mem_of_getLast? last
      have unneeded := spare full page last
      have recent := recorded.recent
      have apart := distinct
      rw [split,List.pairwise_append] at recent
      rw [split,List.nodup_append] at apart
      have others (x : Nat × Nat) : x ∈ front ↔ x ≠ page ∧ x ∈ s.resident := by
        rw [split,List.mem_append,List.mem_singleton]
        constructor
        · exact fun inside => ⟨apart.2.2 x inside page (List.mem_singleton_self _),Or.inl inside⟩
        · exact fun both => both.2.resolve_right both.1
      have oldest : EvictsOldest script (.evicted page :: s.history) := by
        intro newer gone older equal
        cases newer with
        | cons _ newer => exact recorded.evicts newer gone older (List.cons.inj equal).2
        | nil =>
          obtain ⟨same,rfl⟩ := List.cons.inj equal
          obtain rfl := Event.evicted.inj same
          refine ⟨(recorded.kept page).mpr member,fun other inside different => ?_,?_⟩
          · have infront := (others other).mpr ⟨different,(recorded.kept other).mp inside⟩
            exact recent.2.2 other infront page (List.mem_singleton_self _)
          · rw [recorded.executed page.1,List.length_reverse,firstLines,List.length_map,List.length_range]
            by_contra less
            exact unneeded ⟨known page member,by omega,by omega⟩
      rw [last,split,List.dropLast_concat]
      simp only [Option.map_some,Option.toList_some,List.singleton_append]
      exact {
        within := recorded.within
        most := recorded.most
        executed := recorded.executed
        loaded := recorded.loaded
        recent := recent.1
        used := fun x inside => recorded.used x ((others x).mp inside).2
        kept := fun x => by
          refine recorded.once.mem_erase_iff.trans ?_
          rw [recorded.kept x]
          exact (others x).symm
        once := recorded.once.erase _
        evicts := oldest}

theorem load (recorded : Recorded script s) (p : Nat) (more : s.loaded p < pagesOf (script p).length)
    (fresh : (p,s.loaded p) ∉ s.resident) :
    Recorded script {s with
      loaded := Function.update s.loaded p (s.loaded p + 1)
      resident := (p,s.loaded p) :: s.resident
      history := .loaded (p,s.loaded p) :: s.history} where
  within := recorded.within
  most q := by
    simp only [Function.update_apply]
    split
    · rename_i same
      exact same ▸ more
    · exact recorded.most q
  executed := recorded.executed
  loaded q := by
    unfold loads
    rw [List.filterMap_cons]
    simp only [Event.loadedBy,Function.update_apply]
    have before := recorded.loaded q
    unfold loads at before
    rcases eq_or_ne p q with rfl | other
    · simp only [if_true]
      rw [List.range_succ,List.reverse_append,before]
      rfl
    · rw [if_neg other,if_neg (Ne.symm other)]
      exact before
  recent := recent_cons recorded.recent fresh
  used page member := by
    refine List.mem_cons.mpr ?_
    exact (List.mem_cons.mp member).imp_right (recorded.used page)
  kept page := by
    simp only [residents,List.mem_cons,recorded.kept]
  once := List.nodup_cons.mpr ⟨fun old => fresh ((recorded.kept _).mp old),recorded.once⟩
  evicts := recorded.evicts.other _ fun _ same => Event.noConfusion same

theorem withQueue (recorded : Recorded script s) (queue : List Nat) : Recorded script {s with queue := queue} :=
  {recorded with}

theorem step {s' : Progress} (recorded : Recorded script s) (step : Step frames script pids s s') : Recorded script s' := by
  cases step with
  | use p sound member unfinished here =>
    exact recorded.useLine p sound.distinct unfinished (sound.page_resident member unfinished here)
  | fault p sound member unfinished missing spare =>
    have kept : Recorded script (Demand.roomFor frames s) :=
      recorded.roomFor sound.distinct (fun page inside => (sound.known page inside).2) spare
    have loaded : (Demand.roomFor frames s).loaded = s.loaded := by
      unfold Demand.roomFor
      split <;> rfl
    have fresh : (p,(Demand.roomFor frames s).loaded p) ∉ (Demand.roomFor frames s).resident := by
      rw [loaded]
      exact fun old => Nat.lt_irrefl _ (sound.known _ (roomFor_mem old)).2
    have more : (Demand.roomFor frames s).loaded p < pagesOf (script p).length := by
      rw [loaded]
      exact fewer_loaded unfinished (Nat.le_of_eq missing)
    have after := (kept.load p more fresh).withQueue (s.queue ++ [p])
    rw [loaded] at after
    exact after
  | queue queue => exact recorded.withQueue queue

theorem steps {s' : Progress} (recorded : Recorded script s) (steps : Steps frames script pids s s') :
    Recorded script s' := by
  induction steps with
  | refl => exact recorded
  | tail _ last ih => exact ih.step last

end Recorded

/-- Pages go only when the frames are full, and each page that goes makes room for one. -/
theorem Step.filled {s' : Progress} (some : 0 < frames) (step : Step frames script pids s s')
    (before : s.resident.length = min frames (∑ p ∈ pids, s.loaded p)) :
    s'.resident.length = min frames (∑ p ∈ pids, s'.loaded p) := by
  cases step with
  | use p sound member unfinished here => exact (length_touch (sound.page_resident member unfinished here)).trans before
  | fault p sound member unfinished missing spare =>
    have loaded (q : Nat) (other : q ≠ p) : s.loaded q = (serveFault frames s p).loaded q :=
      (Function.update_of_ne other ..).symm
    have one : (serveFault frames s p).loaded p = s.loaded p + 1 := Function.update_self ..
    have total := sum_pred member one.symm loaded
    have length : (serveFault frames s p).resident.length = (roomFor frames s).resident.length + 1 := rfl
    rw [length,roomFor_resident,← total]
    split
    · omega
    · rw [List.length_dropLast]
      omega
  | queue => exact before

theorem Steps.filled {s' : Progress} (some : 0 < frames) (steps : Steps frames script pids s s')
    (before : s.resident.length = min frames (∑ p ∈ pids, s.loaded p)) :
    s'.resident.length = min frames (∑ p ∈ pids, s'.loaded p) := by
  induction steps with
  | refl => exact before
  | tail _ last ih => exact last.filled some ih

end
end MyShell.Demand

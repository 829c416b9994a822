import Mathlib.Logic.Relation
import MyShell.Demand.Progress

/-! A turn of the round-robin loop keeps the pages that are needed, and the order of the turns. -/
namespace MyShell.Demand
open RecencyList

variable {frames : Nat} {script : Nat → List Text} {pids : Finset Nat} {s : Progress} {p q r : Nat}

theorem roomFor_resident (frames : Nat) (s : Progress) :
    (roomFor frames s).resident = if s.resident.length < frames then s.resident else s.resident.dropLast := by
  unfold roomFor
  split <;> rfl

theorem roomFor_mem {page : Nat × Nat} (member : page ∈ (roomFor frames s).resident) : page ∈ s.resident := by
  rw [roomFor_resident] at member
  split at member
  · exact member
  · exact List.mem_of_mem_dropLast member

theorem above_roomFor {page x : Nat × Nat} (member : x ∈ above page (roomFor frames s).resident) :
    x ∈ above page s.resident := by
  rw [roomFor_resident] at member
  split at member
  · exact member
  · rcases List.eq_nil_or_concat s.resident with none | ⟨front,last,split⟩
    · rw [none] at member
      exact absurd member List.not_mem_nil
    · rw [List.concat_eq_append] at split
      rw [split,List.dropLast_concat] at member
      rw [split]
      exact mem_above_append _ member

namespace Sound

theorem page_resident (sound : Sound frames script pids s) (member : p ∈ pids) (more : s.done p < (script p).length)
    (here : s.done p/3 < s.loaded p) : (p,s.done p/3) ∈ s.resident :=
  sound.needed p member _ ⟨here,more,by simp only; omega⟩

theorem useLine (sound : Sound frames script pids s) (member : p ∈ pids) (more : s.done p < (script p).length)
    (here : s.done p/3 < s.loaded p) : Sound frames script pids (useLine script s p) where
  loaded q inside := by
    have before := sound.loaded q inside
    rcases eq_or_ne q p with rfl | other
    · have progress : (Demand.useLine script s q).done q = s.done q + 1 := Function.update_self ..
      have same : (Demand.useLine script s q).loaded q = s.loaded q := rfl
      have ahead := before.ahead
      constructor
      · rw [progress]
        exact more
      · rw [progress,same]
        omega
      · exact before.least
      · exact before.most
      · rw [progress,same]
        omega
    · have same : (Demand.useLine script s p).done q = s.done q := Function.update_of_ne other ..
      exact ⟨same ▸ before.within,same ▸ before.covered,before.least,before.most,same ▸ before.ahead⟩
  queued := sound.queued
  once := sound.once
  distinct := nodup_touch sound.distinct _
  room := by
    rw [Demand.useLine,length_touch (sound.page_resident member more here)]
    exact sound.room
  known page resident := by
    rcases (mem_touch _ _).mp resident with rfl | before
    · exact ⟨member,here⟩
    · exact sound.known page before
  needed q inside i need := by
    obtain ⟨loaded,unfinished,inPage⟩ := need
    have before : Needed script s (q,i) := by
      rcases eq_or_ne q p with rfl | other
      · have progress : (Demand.useLine script s q).done q = s.done q + 1 := Function.update_self ..
        rw [progress] at unfinished inPage
        exact ⟨loaded,Nat.lt_of_succ_lt unfinished,Nat.lt_of_succ_lt inPage⟩
      · have same : (Demand.useLine script s p).done q = s.done q := Function.update_of_ne other ..
        rw [same] at unfinished inPage
        exact ⟨loaded,unfinished,inPage⟩
    exact (mem_touch _ _).mpr (Or.inr (sound.needed q inside i before))

/-- A page fault is served if the page that goes, if one does, is not needed. -/
theorem serveFault (sound : Sound frames script pids s) (member : p ∈ pids) (away : p ∉ s.queue)
    (more : s.done p < (script p).length) (missing : s.loaded p ≤ s.done p/3) (capacity : 0 < frames)
    (spare : s.resident.length = frames → ∀ page, s.resident.getLast? = some page → ¬Needed script s page) :
    Sound frames script pids (serveFault frames s p) := by
  have stays : ∀ page, Needed script s page → page ∈ s.resident → page ∈ (roomFor frames s).resident := by
    intro page need resident
    rw [roomFor_resident]
    split
    · exact resident
    · rename_i full
      rcases List.eq_nil_or_concat s.resident with none | ⟨front,last,split⟩
      · rw [none] at resident
        exact absurd resident List.not_mem_nil
      · rw [List.concat_eq_append] at split
        have goes := spare (Nat.le_antisymm sound.room (Nat.le_of_not_lt full)) last (by rw [split,List.getLast?_concat])
        rw [split] at resident
        rw [split,List.dropLast_concat]
        rcases List.mem_append.mp resident with front | single
        · exact front
        · exact absurd (List.mem_singleton.mp single ▸ need) goes
  have sublist : (roomFor frames s).resident.Sublist s.resident := by
    rw [roomFor_resident]
    split
    · exact List.Sublist.refl _
    · exact List.dropLast_sublist _
  have fresh : (p,s.loaded p) ∉ (roomFor frames s).resident := fun old =>
    Nat.lt_irrefl _ (sound.known _ (roomFor_mem old)).2
  have same (q : Nat) : (Demand.serveFault frames s p).done q = s.done q := by
    unfold Demand.serveFault roomFor
    split <;> rfl
  have loads (q : Nat) : (Demand.serveFault frames s p).loaded q = s.loaded q + if q = p then 1 else 0 := by
    unfold Demand.serveFault
    simp only [Function.update_apply]
    split
    · rename_i here
      rw [here]
    · rfl
  constructor
  · intro q inside
    have before := sound.loaded q inside
    have count := loads q
    obtain ⟨within,covered,least,most,ahead⟩ := before
    rw [pagesOf_eq] at most
    constructor
    · rw [same]
      exact within
    · rw [same,count]
      omega
    · rw [count]
      exact Nat.le_add_right_of_le least
    · rw [count,pagesOf_eq]
      split
      · rename_i here
        subst here
        omega
      · exact most
    · rw [same,count]
      split
      · rename_i here
        subst here
        omega
      · exact ahead
  · intro q queued
    rcases List.mem_append.mp queued with before | last
    · exact sound.queued q before
    · exact List.mem_singleton.mp last ▸ member
  · exact List.nodup_append.mpr ⟨sound.once,List.nodup_singleton _,fun a inside b last =>
      List.mem_singleton.mp last ▸ fun equal => away (equal ▸ inside)⟩
  · exact List.nodup_cons.mpr ⟨fresh,sublist.nodup sound.distinct⟩
  · have kept : (roomFor frames s).resident.length + 1 ≤ frames := by
      rw [roomFor_resident]
      split
      · assumption
      · rw [List.length_dropLast]
        have room := sound.room
        omega
    exact kept
  · intro page resident
    rcases List.mem_cons.mp resident with rfl | before
    · refine ⟨member,?_⟩
      rw [loads,if_pos rfl]
      exact Nat.lt_succ_self _
    · have known := sound.known page (roomFor_mem before)
      refine ⟨known.1,?_⟩
      rw [loads]
      exact Nat.lt_add_right _ known.2
  · intro q inside i need
    obtain ⟨loaded,unfinished,inPage⟩ := need
    rw [same] at unfinished inPage
    rw [loads] at loaded
    by_cases new : q = p ∧ i = s.loaded p
    · obtain ⟨rfl,rfl⟩ := new
      exact List.mem_cons_self
    · have before : Needed script s (q,i) := by
        refine ⟨?_,unfinished,inPage⟩
        simp only at loaded ⊢
        split at loaded
        · rename_i here
          subst here
          exact Nat.lt_of_le_of_ne (Nat.le_of_lt_succ loaded) fun equal => new ⟨rfl,equal⟩
        · exact loaded
      exact List.mem_cons_of_mem _ (stays _ before (sound.needed q inside i before))

theorem withQueue (sound : Sound frames script pids s) (queue : List Nat) (queued : ∀ q ∈ queue, q ∈ pids)
    (once : queue.Nodup) : Sound frames script pids {s with queue := queue} where
  loaded p inside := by
    obtain ⟨within,covered,least,most,ahead⟩ := sound.loaded p inside
    exact ⟨within,covered,least,most,ahead⟩
  queued := queued
  once := once
  distinct := sound.distinct
  room := sound.room
  known := sound.known
  needed := sound.needed

end Sound

/-- Above each page of another process there is at most one page more, which `p` has used. -/
structure Touched (p : Nat) (s s' : Progress) : Prop where
  queue : s'.queue = s.queue
  done : ∀ q, q ≠ p → s'.done q = s.done q
  loaded : ∀ q, q ≠ p → s'.loaded q = s.loaded q
  above : ∃ page : Nat × Nat, page.1 = p ∧ ∀ q i, q ≠ p → ∀ x ∈ above (q,i) s'.resident, x = page ∨ x ∈ above (q,i) s.resident

theorem useLine_touched (script : Nat → List Text) (s : Progress) (p : Nat) : Touched p s (useLine script s p) where
  queue := rfl
  done _ other := Function.update_of_ne other ..
  loaded _ _ := rfl
  above := ⟨(p,s.done p/3),rfl,fun _ _ other _ member =>
    mem_above_touch (fun same => other (congrArg Prod.fst same).symm) member⟩

/-- The page fault without the return to the queue. -/
theorem serveFault_touched (frames : Nat) (s : Progress) (p : Nat) :
    Touched p s {serveFault frames s p with queue := s.queue} where
  queue := rfl
  done q _ := by
    unfold serveFault roomFor
    split <;> rfl
  loaded _ other := Function.update_of_ne other ..
  above := by
    refine ⟨(p,s.loaded p),rfl,fun q i other x member => ?_⟩
    have kept : x ∈ RecencyList.above (q,i) ((p,s.loaded p) :: (roomFor frames s).resident) := member
    rw [above_cons,if_neg fun same => other (congrArg Prod.fst same).symm] at kept
    exact (List.mem_cons.mp kept).imp_right above_roomFor

namespace Touched
variable {s' : Progress}

theorem current (touched : Touched p s s') (other : q ≠ p) : Current script s' q ↔ Current script s q := by
  unfold Current
  rw [touched.done q other,touched.loaded q other]

theorem depth_le (touched : Touched p s s') (other : q ≠ p) (r : Nat) :
    depth s' q r ≤ depth s q r + if r = p then 1 else 0 := by
  obtain ⟨page,owner,above⟩ := touched.above
  unfold depth
  rw [touched.done q other]
  have within : ((RecencyList.above (q,s.done q/3) s'.resident).toFinset.filter fun x => x.1 = r) ⊆
      ((RecencyList.above (q,s.done q/3) s.resident).toFinset.filter fun x => x.1 = r) ∪ if r = p then {page} else ∅ := by
    intro x member
    obtain ⟨inside,mine⟩ := Finset.mem_filter.mp member
    rcases above q _ other x (List.mem_toFinset.mp inside) with rfl | before
    · refine Finset.mem_union_right _ ?_
      rw [if_pos (mine.symm.trans owner)]
      exact Finset.mem_singleton_self _
    · exact Finset.mem_union_left _ (Finset.mem_filter.mpr ⟨List.mem_toFinset.mpr before,mine⟩)
  refine (Finset.card_le_card within).trans ((Finset.card_union_le _ _).trans (Nat.add_le_add_left ?_ _))
  split
  · exact Nat.le_of_eq (Finset.card_singleton _)
  · exact Nat.le_of_eq Finset.card_empty

end Touched

namespace Waiting
variable {quota : Nat → Nat} {s' : Progress} {m : Nat}

/-- A step of the running process. -/
theorem touched (waiting : Waiting script pids (Function.update quota p m) (· = p) s) (away : p ∉ s.queue)
    (step : Touched p s s') : Waiting script pids (Function.update quota p (m+1)) (· = p) s' := by
  have other : ∀ q ∈ s.queue, q ≠ p := fun q queued same => away (same ▸ queued)
  constructor
  · intro q inside absent stopped
    rw [step.queue] at absent
    rw [step.done q stopped]
    exact waiting.ended q inside absent stopped
  · intro q queued
    rw [step.queue] at queued
    rw [step.done q (other q queued)]
    exact waiting.even q queued
  · rw [step.queue]
    refine waiting.order.imp_of_mem fun first second ordered => ?_
    rw [step.done _ (other _ first),step.done _ (other _ second)]
    exact ordered
  · intro q queued current
    rw [step.queue] at queued
    have before := waiting.own q queued ((step.current (other q queued)).mp current)
    have least := step.depth_le (other q queued) q
    rw [if_neg (other q queued),before] at least
    exact Nat.le_zero.mp least
  · intro q queued current r apart
    rw [step.queue] at queued
    have before := waiting.shallow q queued ((step.current (other q queued)).mp current) r apart
    have least := step.depth_le (other q queued) r
    rcases eq_or_ne r p with rfl | foreign
    · rw [Function.update_self] at before ⊢
      rw [if_pos rfl] at least
      exact least.trans (Nat.succ_le_succ before)
    · rw [Function.update_of_ne foreign] at before ⊢
      rw [if_neg foreign] at least
      exact least.trans before
  · rw [step.queue]
    refine waiting.behind.imp_of_mem fun {r} _ first second ordered current => ?_
    have before := ordered ((step.current (other _ second)).mp current)
    have least := step.depth_le (other _ second) r
    rw [if_neg (other _ first),before] at least
    exact Nat.le_zero.mp least

/-- The process at the head of the queue starts its turn, none of its pages above the others' current ones. -/
theorem popped {rest : List Nat} (waiting : Waiting script pids quota (fun _ => False) s) (head : s.queue = p :: rest)
    (once : s.queue.Nodup) : Waiting script pids (Function.update quota p 0) (· = p) {s with queue := rest} := by
  have order := waiting.order
  have behind := waiting.behind
  rw [head] at order behind once
  have away := (List.nodup_cons.mp once).1
  have still : ∀ q ∈ rest, q ∈ s.queue := fun q queued => head ▸ List.mem_cons_of_mem _ queued
  constructor
  · intro q inside absent stopped
    refine waiting.ended q inside (fun queued => ?_) id
    rw [head] at queued
    exact (List.mem_cons.mp queued).elim stopped absent
  · exact fun q queued => waiting.even q (still q queued)
  · exact order.of_cons
  · exact fun q queued => waiting.own q (still q queued)
  · intro q queued current r apart
    rcases eq_or_ne r p with rfl | foreign
    · rw [Function.update_self]
      exact Nat.le_of_eq (List.rel_of_pairwise_cons behind queued current)
    · rw [Function.update_of_ne foreign]
      exact waiting.shallow q (still q queued) current r apart
  · exact behind.of_cons

/-- The running process has used no more of its pages than it started with. -/
theorem settle {running : Nat → Prop} (waiting : Waiting script pids (Function.update (share script) p m) running s)
    (sound : Sound frames script pids s) (member : p ∈ pids) (few : m ≤ 2) : Waiting script pids (share script) running s where
  ended := waiting.ended
  even := waiting.even
  order := waiting.order
  own := waiting.own
  shallow := by
    intro q queued current r apart
    have before := waiting.shallow q queued current r apart
    rcases eq_or_ne r p with rfl | foreign
    · rw [Function.update_self] at before
      refine Nat.le_min.mpr ⟨before.trans few,?_⟩
      have pages : ((above (q,s.done q/3) s.resident).toFinset.filter fun x => x.1 = r) ⊆
          (Finset.range (pagesOf (script r).length)).image fun i => (r,i) := by
        rintro ⟨owner,i⟩ found
        obtain ⟨listed,mine⟩ := Finset.mem_filter.mp found
        have known := sound.known _ ((above_sublist _ _).subset (List.mem_toFinset.mp listed))
        simp only at mine known
        subst mine
        exact Finset.mem_image.mpr ⟨i,Finset.mem_range.mpr (known.2.trans_le (sound.loaded _ member).most),rfl⟩
      exact (Finset.card_le_card pages).trans (Finset.card_image_le.trans (Nat.le_of_eq (Finset.card_range _)))
    · rw [Function.update_of_ne foreign] at before
      exact before
  behind := waiting.behind

/-- A process that is finished stays out of the queue. -/
theorem retired (waiting : Waiting script pids quota (· = p) s) (finished : s.done p = (script p).length) :
    Waiting script pids quota (fun _ => False) s :=
  {waiting with
    ended := fun q inside absent _ =>
      (eq_or_ne q p).elim (fun same => same ▸ finished) fun other => waiting.ended q inside absent other}

/-- The process goes back to the end of the queue, its current page used last. -/
theorem put (waiting : Waiting script pids quota (· = p) s)
    (even : s.done p < (script p).length → s.done p < 6 → s.done p % 2 = 0)
    (order : ∀ q ∈ s.queue, s.done q < (script q).length → s.done p < (script p).length →
      min 6 (s.done q) ≤ min 6 (s.done p) ∧ min 6 (s.done p) ≤ min 6 (s.done q) + 2)
    (top : Current script s p → above (p,s.done p/3) s.resident = []) :
    Waiting script pids quota (fun _ => False) {s with queue := s.queue ++ [p]} := by
  have last (holds : Nat → Prop) (before : ∀ q ∈ s.queue, holds q) (here : holds p) : ∀ q ∈ s.queue ++ [p], holds q := by
    intro q queued
    rcases List.mem_append.mp queued with inside | single
    · exact before q inside
    · exact List.mem_singleton.mp single ▸ here
  have flat (r : Nat) (current : Current script s p) : depth s p r = 0 := by
    unfold depth
    rw [top current]
    rfl
  constructor
  · intro q inside absent _
    have parts := fun queued => absent (List.mem_append.mpr queued)
    exact waiting.ended q inside (fun queued => parts (Or.inl queued)) fun same =>
      parts (Or.inr (List.mem_singleton.mpr same))
  · exact last _ waiting.even even
  · refine List.pairwise_append.mpr ⟨waiting.order,List.pairwise_singleton _ _,fun q queued r single => ?_⟩
    rw [List.mem_singleton.mp single]
    exact order q queued
  · exact last _ waiting.own (flat p)
  · refine last (fun q => Current script s q → ∀ r, r ≠ q → depth s q r ≤ quota r) waiting.shallow ?_
    intro current r _
    rw [flat r current]
    exact Nat.zero_le _
  · refine List.pairwise_append.mpr ⟨waiting.behind,List.pairwise_singleton _ _,fun q _ r single => ?_⟩
    rw [List.mem_singleton.mp single]
    exact flat q

/-- When the frames are full, the page used least recently is not needed: above a page that is, there are
too few pages, because its own process has two more frames. -/
theorem spare (waiting : Waiting script pids (Function.update (share script) p m) (· = p) s)
    (sound : Sound frames script pids s) (capacity : ∑ r ∈ pids, share script r ≤ frames) (few : m ≤ share script p)
    (away : p ∉ s.queue) (missing : s.loaded p ≤ s.done p/3)
    (late : ∀ q ∈ s.queue, s.done q < (script q).length → 6 ≤ s.done q)
    (full : s.resident.length = frames) (page : Nat × Nat) (last : s.resident.getLast? = some page) :
    ¬Needed script s page := by
  obtain ⟨q,i⟩ := page
  intro need
  obtain ⟨loaded,unfinished,inPage⟩ := id need
  simp only at loaded unfinished inPage
  have resident := List.mem_of_getLast? last
  have inside : q ∈ pids := (sound.known _ resident).1
  have before := sound.loaded q inside
  have other : q ≠ p := by
    rintro rfl
    omega
  have queued : q ∈ s.queue := by
    by_contra absent
    exact absurd (waiting.ended q inside absent other) (Nat.ne_of_lt unfinished)
  have begun := late q queued unfinished
  have ahead := before.ahead
  have place : i = s.done q/3 := by omega
  subst place
  have current : Current script s q := ⟨unfinished,by omega,loaded⟩
  obtain ⟨front,split⟩ : ∃ front, s.resident = front ++ [(q,s.done q/3)] :=
    ⟨s.resident.dropLast,(List.dropLast_append_getLast? _ last).symm⟩
  have apart := sound.distinct
  rw [split,List.nodup_append] at apart
  have others : above (q,s.done q/3) s.resident = front := by
    rw [split]
    exact above_last fun double => apart.2.2 _ double _ (List.mem_singleton_self _) rfl
  have owners : ∀ x ∈ front.toFinset, x.1 ∈ pids := fun x member =>
    (sound.known x (split ▸ List.mem_append_left _ (List.mem_toFinset.mp member))).1
  have counted := Finset.card_eq_sum_card_fiberwise owners
  rw [List.toFinset_card_of_nodup apart.1] at counted
  have bound : ∀ r ∈ pids, (front.toFinset.filter fun x => x.1 = r).card ≤ if r = q then 0 else share script r := by
    intro r _
    have same : (front.toFinset.filter fun x => x.1 = r).card = depth s q r := by
      unfold depth
      rw [others]
    rw [same]
    split
    · rename_i here
      subst here
      exact Nat.le_of_eq (waiting.own _ queued current)
    · rename_i apart
      refine (waiting.shallow q queued current r apart).trans ?_
      rcases eq_or_ne r p with rfl | foreign
      · rw [Function.update_self]
        exact few
      · rw [Function.update_of_ne foreign]
  have total := Finset.sum_le_sum bound
  have rest := Finset.sum_erase_add pids (share script) inside
  have without : ∑ r ∈ pids, (if r = q then 0 else share script r) = ∑ r ∈ pids.erase q, share script r := by
    rw [← Finset.sum_erase_add pids _ inside,if_pos rfl,Nat.add_zero]
    exact Finset.sum_congr rfl fun r member => if_neg (Finset.ne_of_mem_erase member)
  rw [without] at total
  have two : share script q = 2 := by
    have most := before.most
    unfold share
    omega
  have length : front.length + 1 = frames := by
    rw [← full,split,List.length_append,List.length_singleton]
  omega

end Waiting

/-- What a turn is made of. A page that is needed never goes. -/
inductive Step (frames : Nat) (script : Nat → List Text) (pids : Finset Nat) : Progress → Progress → Prop
  | use (s : Progress) (p : Nat) (sound : Sound frames script pids s) (member : p ∈ pids)
      (unfinished : s.done p < (script p).length) (here : s.done p/3 < s.loaded p) :
      Step frames script pids s (useLine script s p)
  | fault (s : Progress) (p : Nat) (sound : Sound frames script pids s) (member : p ∈ pids)
      (unfinished : s.done p < (script p).length) (missing : s.loaded p = s.done p/3)
      (spare : ¬s.resident.length < frames → ∀ page, s.resident.getLast? = some page → ¬Needed script s page) :
      Step frames script pids s (serveFault frames s p)
  | queue (s : Progress) (queue : List Nat) : Step frames script pids s {s with queue := queue}

abbrev Steps (frames : Nat) (script : Nat → List Text) (pids : Finset Nat) : Progress → Progress → Prop :=
  Relation.ReflTransGen (Step frames script pids)

theorem sum_pred {f g : Nat → Nat} (member : p ∈ pids) (less : g p + 1 = f p) (same : ∀ q, q ≠ p → g q = f q) :
    ∑ q ∈ pids, g q + 1 = ∑ q ∈ pids, f q := by
  rw [← Finset.sum_erase_add pids g member,← Finset.sum_erase_add pids f member,Nat.add_assoc,less]
  exact congrArg (· + f p) (Finset.sum_congr rfl fun q inside => same q (Finset.ne_of_mem_erase inside))

theorem rank_useLine (member : p ∈ pids) (unfinished : s.done p < (script p).length) :
    rank script pids (useLine script s p) + 1 = rank script pids s := by
  unfold rank
  rw [Nat.add_right_comm]
  refine congrArg (· + s.queue.length) (sum_pred member ?_ fun q other => ?_)
  · have progress : (useLine script s p).done p = s.done p + 1 := Function.update_self ..
    have kept : (useLine script s p).loaded p = s.loaded p := rfl
    rw [progress,kept]
    omega
  · have progress : (useLine script s p).done q = s.done q := Function.update_of_ne other ..
    rw [progress]
    rfl

theorem rank_serveFault (member : p ∈ pids) (more : s.loaded p < pagesOf (script p).length) :
    rank script pids (serveFault frames s p) = rank script pids s := by
  have done (q : Nat) : (serveFault frames s p).done q = s.done q := by
    unfold serveFault roomFor
    split <;> rfl
  have queue : (serveFault frames s p).queue = s.queue ++ [p] := rfl
  unfold rank
  rw [queue,List.length_append,List.length_singleton,Nat.add_comm s.queue.length 1,← Nat.add_assoc]
  refine congrArg (· + s.queue.length) (sum_pred member ?_ fun q other => ?_)
  · have loaded : (serveFault frames s p).loaded p = s.loaded p + 1 := Function.update_self ..
    rw [done,loaded]
    omega
  · have loaded : (serveFault frames s p).loaded q = s.loaded q := Function.update_of_ne other ..
    rw [done,loaded]

/-- What holds between the turns. -/
structure Steady (frames : Nat) (script : Nat → List Text) (pids : Finset Nat) (s : Progress) : Prop where
  sound : Sound frames script pids s
  waiting : Waiting script pids (share script) (fun _ => False) s

theorem share_pos (unfinished : s.done p < (script p).length) : 0 < share script p := by
  unfold share
  rw [pagesOf_eq]
  omega

theorem Loaded.late (loaded : Loaded script s p) (unfinished : s.done p < (script p).length)
    (missing : s.loaded p ≤ s.done p/3) : 6 ≤ s.done p ∧ s.loaded p = s.done p/3 := by
  obtain ⟨within,covered,least,most,ahead⟩ := loaded
  unfold share at least
  rw [pagesOf_eq] at least most
  omega

theorem fewer_loaded (unfinished : s.done p < (script p).length)
    (missing : s.loaded p ≤ s.done p/3) : s.loaded p < pagesOf (script p).length := by
  rw [pagesOf_eq]
  omega

section
variable {m : Nat} (capacity : ∑ r ∈ pids, share script r ≤ frames) (member : p ∈ pids) (away : p ∉ s.queue)
include capacity member away

/-- A page fault ends the turn. -/
theorem serveFault_steady (sound : Sound frames script pids s)
    (waiting : Waiting script pids (Function.update (share script) p m) (· = p) s) (few : m ≤ 1)
    (unfinished : s.done p < (script p).length) (missing : s.loaded p ≤ s.done p/3)
    (late : ∀ q ∈ s.queue, s.done q < (script q).length → 6 ≤ s.done q) :
    Steady frames script pids (serveFault frames s p) ∧ Step frames script pids s (serveFault frames s p) := by
  have some := share_pos unfinished
  have positive : 0 < frames := some.trans_le ((Finset.single_le_sum (fun r _ => Nat.zero_le (share script r)) member).trans capacity)
  have begun := (sound.loaded p member).late unfinished missing
  have spare := waiting.spare sound capacity (few.trans some) away missing late
  have after := sound.serveFault member away unfinished missing positive spare
  have touched := serveFault_touched frames s p
  have same : (serveFault frames s p).done = s.done := by
    unfold serveFault roomFor
    split <;> rfl
  refine ⟨⟨after,?_⟩,.fault s p sound member unfinished begun.2 fun full => spare (Nat.le_antisymm sound.room (Nat.le_of_not_lt full))⟩
  have moved := ((waiting.touched away touched).settle (after.withQueue s.queue sound.queued sound.once) member
    (Nat.succ_le_succ few)).put
  apply moved
  · intro _ early
    have here : s.done p < 6 := same ▸ early
    omega
  · intro q queued open_ _
    have ours := late q queued (by rw [← same]; exact open_)
    have done : (serveFault frames s p).done q = s.done q := congrFun same q
    have mine : (serveFault frames s p).done p = s.done p := congrFun same p
    simp only [done,mine]
    omega
  · intro _
    have mine : (serveFault frames s p).done p = s.done p := congrFun same p
    simp only [mine]
    exact (above_cons _ _ _).trans (if_pos (by rw [begun.2]))

theorem takeTurn_steady (sound : Sound frames script pids s)
    (start : Waiting script pids (Function.update (share script) p 0) (· = p) s)
    (even : s.done p < (script p).length → s.done p < 6 → s.done p % 2 = 0)
    (ordered : ∀ q ∈ s.queue, s.done p < (script p).length → s.done q < (script q).length →
      min 6 (s.done p) ≤ min 6 (s.done q) ∧ min 6 (s.done q) ≤ min 6 (s.done p) + 2) :
    Steady frames script pids (takeTurn frames script s p) ∧ Steps frames script pids s (takeTurn frames script s p) ∧
      rank script pids (takeTurn frames script s p) ≤ rank script pids s := by
  have late (begun : 6 ≤ s.done p + 1) (unfinished : s.done p < (script p).length) :
      ∀ q ∈ s.queue, s.done q < (script q).length → 6 ≤ s.done q := by
    intro q inside more
    have pair := ordered q inside unfinished more
    have pairs := even unfinished
    omega
  have loaded := sound.loaded p member
  have within := loaded.within
  have fault (unfinished : s.done p < (script p).length) (missing : ¬s.done p/3 < s.loaded p) :
      Steady frames script pids (serveFault frames s p) ∧ Steps frames script pids s (serveFault frames s p) ∧
        rank script pids (serveFault frames s p) ≤ rank script pids s := by
    have begun := loaded.late unfinished (Nat.le_of_not_lt missing)
    have served := serveFault_steady capacity member away sound start (Nat.zero_le _) unfinished (Nat.le_of_not_lt missing)
      (late (by omega) unfinished)
    exact ⟨served.1,.single served.2,
      Nat.le_of_eq (rank_serveFault member (fewer_loaded unfinished (Nat.le_of_not_lt missing)))⟩
  have first (unfinished : s.done p < (script p).length) (here : s.done p/3 < s.loaded p) :
      Sound frames script pids (useLine script s p) ∧
        Waiting script pids (Function.update (share script) p 1) (· = p) (useLine script s p) :=
    ⟨sound.useLine member unfinished here,start.touched away (useLine_touched script s p)⟩
  have progress : (useLine script s p).done p = s.done p + 1 := Function.update_self ..
  unfold takeTurn
  by_cases two : 1 < (script p).length - s.done p
  · have unfinished : s.done p < (script p).length := by omega
    rw [if_pos two,runLine]
    by_cases here : s.done p/3 < s.loaded p
    · obtain ⟨sound1,waiting1⟩ := first unfinished here
      have more : (useLine script s p).done p < (script p).length := by omega
      rw [if_pos here]
      simp only [Bool.false_eq_true,if_false]
      have step1 := Step.use s p sound member unfinished here
      have rank1 := rank_useLine member unfinished
      have apart (q : Nat) (queued : q ∈ s.queue) : q ≠ p := fun same => away (same ▸ queued)
      have others (q : Nat) (queued : q ∈ s.queue) : (useLine script s p).done q = s.done q :=
        Function.update_of_ne (apart q queued) ..
      rw [runLine]
      by_cases still : (useLine script s p).done p/3 < (useLine script s p).loaded p
      · rw [if_pos still]
        simp only [Bool.false_eq_true,if_false]
        have sound2 := sound1.useLine member more still
        have waiting2 := (waiting1.touched away (useLine_touched script _ p)).settle sound2 member (Nat.le_refl 2)
        have again : (useLine script (useLine script s p) p).done p = s.done p + 2 :=
          (Function.update_self ..).trans (congrArg (· + 1) progress)
        refine ⟨⟨sound2.withQueue _ ?_ ?_,waiting2.put ?_ ?_ ?_⟩,?_,?_⟩
        · intro q queued
          rcases List.mem_append.mp queued with before | last
          · exact sound.queued q before
          · exact List.mem_singleton.mp last ▸ member
        · exact List.nodup_append.mpr ⟨sound.once,List.nodup_singleton _,fun a inside b last =>
            List.mem_singleton.mp last ▸ fun equal => away (equal ▸ inside)⟩
        · intro _ early
          rw [again] at early ⊢
          have pairs := even unfinished
          omega
        · intro q queued open_ _
          have same : (useLine script (useLine script s p) p).done q = s.done q :=
            (Function.update_of_ne (apart q queued) ..).trans (others q queued)
          rw [same] at open_
          rw [again,same]
          have pair := ordered q queued unfinished open_
          have pairs := even unfinished
          omega
        · intro current
          obtain ⟨_,late,there⟩ := current
          have ahead := loaded.ahead
          have kept : (useLine script (useLine script s p) p).loaded p = s.loaded p := rfl
          rw [again] at late there ⊢
          rw [kept] at there
          have same : (s.done p + 2)/3 = (useLine script s p).done p/3 := by omega
          rw [same]
          exact above_touch _ _
        · exact ((Relation.ReflTransGen.single step1).tail (.use _ p sound1 member more still)).tail (.queue _ _)
        · have rank2 := rank_useLine member more
          have requeued : rank script pids {useLine script (useLine script s p) p with queue := s.queue ++ [p]} =
              rank script pids (useLine script (useLine script s p) p) + 1 := by
            unfold rank
            rw [List.length_append,List.length_singleton,← Nat.add_assoc]
            rfl
          exact requeued.trans_le (rank2.trans_le (by omega))
      · rw [if_neg still]
        simp only [if_true]
        have missing := Nat.le_of_not_lt still
        have begun := (sound1.loaded p member).late more missing
        have late1 : ∀ q ∈ (useLine script s p).queue, (useLine script s p).done q < (script q).length →
            6 ≤ (useLine script s p).done q := by
          intro q queued open_
          rw [others q queued] at open_ ⊢
          exact late (by omega) unfinished q queued open_
        have away1 : p ∉ (useLine script s p).queue := away
        have served := serveFault_steady capacity member away1 sound1 waiting1 (Nat.le_refl 1) more missing late1
        have rank2 : rank script pids (serveFault frames (useLine script s p) p) = rank script pids (useLine script s p) :=
          rank_serveFault member (fewer_loaded more missing)
        exact ⟨served.1,(Relation.ReflTransGen.single step1).tail served.2,by omega⟩
    · rw [if_neg here]
      simp only [if_true]
      exact fault unfinished here
  · rw [if_neg two]
    by_cases one : (script p).length - s.done p = 1
    · have unfinished : s.done p < (script p).length := by omega
      rw [if_pos one,runLine]
      by_cases here : s.done p/3 < s.loaded p
      · obtain ⟨sound1,waiting1⟩ := first unfinished here
        rw [if_pos here]
        exact ⟨⟨sound1,(waiting1.settle sound1 member (by decide)).retired (by omega)⟩,.single (.use s p sound member unfinished here),
          (Nat.le_succ _).trans_eq (rank_useLine member unfinished)⟩
      · rw [if_neg here]
        exact fault unfinished here
    · rw [if_neg one]
      exact ⟨⟨sound,(start.settle sound member (Nat.zero_le _)).retired (by omega)⟩,.refl,Nat.le_refl _⟩

end

theorem Steady.turn (steady : Steady frames script pids s) (capacity : ∑ r ∈ pids, share script r ≤ frames)
    (some : s.queue ≠ []) :
    Steady frames script pids (turn frames script s) ∧ Steps frames script pids s (turn frames script s) ∧
      rank script pids (turn frames script s) < rank script pids s := by
  obtain ⟨sound,waiting⟩ := steady
  unfold Demand.turn
  split
  · rename_i none
    exact absurd none some
  · rename_i p rest head
    have once := sound.once
    have queued : p ∈ s.queue := head ▸ List.mem_cons_self
    have order := waiting.order
    rw [head] at once order
    have taken := takeTurn_steady capacity (sound.queued p queued) (List.nodup_cons.mp once).1
      (sound.withQueue rest (fun q inside => sound.queued q (head ▸ List.mem_cons_of_mem _ inside)) once.of_cons)
      (waiting.popped head sound.once) (waiting.even p queued) (List.pairwise_cons.mp order).1
    have popped : rank script pids {s with queue := rest} + 1 = rank script pids s := by
      unfold rank
      rw [head,List.length_cons,← Nat.add_assoc]
    exact ⟨taken.1,(Relation.ReflTransGen.single (.queue s rest)).trans taken.2.1,
      (Nat.lt_succ_of_le taken.2.2).trans_eq popped⟩

end MyShell.Demand

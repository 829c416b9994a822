import Mathlib.Data.Nat.Find
import Mathlib.Order.Basic
import MyShell.FS.Cache

/-! The clock hand of `buffer_cache_evict`: the loop counts its inspections, and the
access bits it clears on the way are exactly those of the slots it has passed. -/
namespace MyShell.FS.BufferCache

/-- The slot `k` places after the hand. -/
def ahead (c : BufferCache) (k : Nat) : Fin bufferCacheSize := Fin.ofNat bufferCacheSize (c.clock+k)

/-- The slot under inspection gets a second chance. -/
def passes (entry : CacheEntry) : Bool := entry.occupied && entry.access

/-- One turn of the loop that does not leave it. -/
def passSlot (c : BufferCache) : BufferCache :=
  {c.setEntry c.clock {c.cache c.clock with access := false} with clock := c.clock+1}

/-- The loop started in `c` inspects `n` slots and stops in `d`. -/
inductive Inspects : BufferCache → Nat → BufferCache → Prop
  | stop (c : BufferCache) (usable : passes (c.cache c.clock) = false) : Inspects c 1 c
  | pass (c d : BufferCache) (n : Nat) (busy : passes (c.cache c.clock) = true)
      (rest : Inspects (passSlot c) n d) : Inspects c (n+1) d

theorem evictLoop_inspects (c d : BufferCache) (n fuel : Nat) (run : Inspects c n d) (enough : n ≤ fuel) :
    evictLoop fuel c = d := by
  induction run generalizing fuel with
  | stop c usable =>
    obtain ⟨fuel,rfl⟩ := Nat.exists_eq_succ_of_ne_zero (Nat.one_le_iff_ne_zero.mp enough)
    cases occupied : (c.cache c.clock).occupied <;> cases access : (c.cache c.clock).access <;>
      simp_all [evictLoop,passes]
  | pass c d n busy rest ih =>
    obtain ⟨fuel,rfl⟩ := Nat.exists_eq_add_of_le' (Nat.le_trans (Nat.le_add_left 1 n) enough)
    simp only [passes,Bool.and_eq_true] at busy
    have turn : evictLoop (fuel+1) c = evictLoop fuel (passSlot c) := by
      simp [evictLoop,passSlot,busy.1,busy.2]
    rw [turn]
    exact ih fuel (Nat.le_of_succ_le_succ enough)

/-- The state after `k` passed slots. -/
def afterPasses (c : BufferCache) (k : Nat) : BufferCache :=
  {c with
    cache := fun i => if ∃ j < k, i = ahead c j then {c.cache i with access := false} else c.cache i
    clock := ahead c k}

theorem ahead_zero (c : BufferCache) : ahead c 0 = c.clock :=
  Fin.ext (Nat.mod_eq_of_lt c.clock.isLt)

theorem ahead_succ (c : BufferCache) (k : Nat) : ahead c k+1 = ahead c (k+1) := by
  apply Fin.ext
  change ((c.clock+k) % 64+1) % 64 = (c.clock+(k+1)) % 64
  omega

theorem ahead_full (c : BufferCache) : ahead c bufferCacheSize = c.clock := by
  apply Fin.ext
  have hand : (c.clock : Nat) < 64 := c.clock.isLt
  change ((c.clock : Nat)+64) % 64 = c.clock
  omega

theorem ahead_injective (c : BufferCache) (j k : Nat) (small : j < bufferCacheSize) (bound : k < bufferCacheSize)
    (same : ahead c j = ahead c k) : j = k := by
  have values : (c.clock+j) % 64 = (c.clock+k) % 64 := congrArg Fin.val same
  have hand : (c.clock : Nat) < 64 := c.clock.isLt
  have sizes : j < 64 ∧ k < 64 := ⟨small,bound⟩
  omega

theorem ahead_surjective (c : BufferCache) (i : Fin bufferCacheSize) : ∃ j < bufferCacheSize, i = ahead c j := by
  have hand : (c.clock : Nat) < 64 := c.clock.isLt
  have slot : (i : Nat) < 64 := i.isLt
  refine ⟨(i+64-c.clock) % 64,Nat.mod_lt _ (by decide),Fin.ext ?_⟩
  change (i : Nat) = (c.clock+(i+64-c.clock) % 64) % 64
  omega

theorem afterPasses_zero (c : BufferCache) : afterPasses c 0 = c := by
  simp only [afterPasses,Nat.not_lt_zero,false_and,exists_false,if_false,ahead_zero]

theorem passSlot_afterPasses (c : BufferCache) (k : Nat) : passSlot (afterPasses c k) = afterPasses c (k+1) := by
  have cells : (passSlot (afterPasses c k)).cache = (afterPasses c (k+1)).cache := by
    funext i
    have split : (∃ j < k+1, i = ahead c j) ↔ i = ahead c k ∨ ∃ j < k, i = ahead c j := by
      simp only [Nat.lt_succ_iff_lt_or_eq,or_and_right,exists_or,exists_eq_left]
      exact or_comm
    simp only [passSlot,setEntry,afterPasses,split]
    by_cases here : i = ahead c k
    · subst here
      simp only [Function.update_self,true_or,if_true]
      split <;> rfl
    · simp only [Function.update_of_ne here,here,false_or]
  have hand : (passSlot (afterPasses c k)).clock = (afterPasses c (k+1)).clock := ahead_succ c k
  have device : (passSlot (afterPasses c k)).fsDevice = (afterPasses c (k+1)).fsDevice := rfl
  revert cells hand device
  cases passSlot (afterPasses c k)
  cases afterPasses c (k+1)
  rintro rfl rfl rfl
  rfl

/-- The entry under the hand after `k` passes is the old one until the turn is full. -/
theorem afterPasses_hand (c : BufferCache) (k : Nat) (bound : k < bufferCacheSize) :
    (afterPasses c k).cache (afterPasses c k).clock = c.cache (ahead c k) := by
  have fresh : ¬∃ j < k, ahead c k = ahead c j := by
    rintro ⟨j,before,same⟩
    have := ahead_injective c k j bound (Nat.lt_trans before bound) same
    omega
  simp only [afterPasses,fresh,if_false]

/-- After a full turn every access bit is clear. -/
theorem afterPasses_full (c : BufferCache) :
    passes ((afterPasses c bufferCacheSize).cache (afterPasses c bufferCacheSize).clock) = false := by
  simp only [afterPasses,ahead_surjective,if_true,passes,Bool.and_false]

theorem inspects_afterPasses (c : BufferCache) (k : Nat)
    (busy : ∀ j < k, passes ((afterPasses c j).cache (afterPasses c j).clock) = true)
    (usable : passes ((afterPasses c k).cache (afterPasses c k).clock) = false) (done : Nat) (within : done ≤ k) :
    Inspects (afterPasses c (k-done)) (done+1) (afterPasses c k) := by
  induction done with
  | zero => exact .stop _ usable
  | succ done ih =>
    have next : k-done = k-(done+1)+1 := by omega
    refine .pass _ _ _ (busy _ (by omega)) ?_
    rw [passSlot_afterPasses,← next]
    exact ih (by omega)

/-- Either every slot passes or there is a first one that does not. -/
theorem first_usable (c : BufferCache) : ∃ k ≤ bufferCacheSize,
    (∀ j < k, passes (c.cache (ahead c j)) = true) ∧
      (k < bufferCacheSize → passes (c.cache (ahead c k)) = false) := by
  by_cases usable : ∃ k, k < bufferCacheSize ∧ passes (c.cache (ahead c k)) = false
  · refine ⟨Nat.find usable,(Nat.find_spec usable).1.le,?_,fun _ => (Nat.find_spec usable).2⟩
    intro j before
    have unusable := Nat.find_min usable before
    exact Bool.of_not_eq_false fun clear => unusable ⟨Nat.lt_trans before (Nat.find_spec usable).1,clear⟩
  · refine ⟨bufferCacheSize,le_rfl,?_,fun beyond => absurd beyond (lt_irrefl _)⟩
    intro j bound
    exact Bool.of_not_eq_false fun clear => usable ⟨j,bound,clear⟩

/-- What `buffer_cache_evict` returns after `k` slots with a second chance. -/
structure Evicted (c : BufferCache) (k : Nat) (slot : Fin bufferCacheSize) (d : BufferCache) : Prop where
  hand : d.clock = slot
  place : slot = ahead c k
  free : (d.cache slot).occupied = false
  device : d.fsDevice =
    if (c.cache slot).occupied && (c.cache slot).dirty then
      blockWrite c.fsDevice (c.cache slot).diskSector (c.cache slot).buffer
    else c.fsDevice
  diskSector : ∀ i, (d.cache i).diskSector = (c.cache i).diskSector
  buffer : ∀ i, (d.cache i).buffer = (c.cache i).buffer
  dirty : ∀ i, i ≠ slot → (d.cache i).dirty = (c.cache i).dirty
  occupied : ∀ i, i ≠ slot → (d.cache i).occupied = (c.cache i).occupied
  access : ∀ i, (d.cache i).access = ((c.cache i).access && !decide (∃ j < k, i = ahead c j))

theorem evictLoop_spec (c : BufferCache) (k : Nat) (bound : k ≤ bufferCacheSize)
    (busy : ∀ j < k, passes (c.cache (ahead c j)) = true)
    (usable : k < bufferCacheSize → passes (c.cache (ahead c k)) = false) :
    Inspects c (k+1) (afterPasses c k) := by
  have stopped : passes ((afterPasses c k).cache (afterPasses c k).clock) = false := by
    obtain below | full := Nat.lt_or_eq_of_le bound
    · rw [afterPasses_hand c k below]
      exact usable below
    · rw [full]
      exact afterPasses_full c
  have run := inspects_afterPasses c k
    (fun j before => by rw [afterPasses_hand c j (Nat.lt_of_lt_of_le before bound)]; exact busy j before)
    stopped k le_rfl
  rwa [Nat.sub_self,afterPasses_zero] at run

theorem flush_clock (c : BufferCache) (slot : Fin bufferCacheSize) : (bufferCacheFlush c slot).clock = c.clock := by
  simp only [bufferCacheFlush]
  split <;> rfl

theorem flush_fsDevice (c : BufferCache) (slot : Fin bufferCacheSize) : (bufferCacheFlush c slot).fsDevice =
    if (c.cache slot).dirty then blockWrite c.fsDevice (c.cache slot).diskSector (c.cache slot).buffer
    else c.fsDevice := by
  simp only [bufferCacheFlush]
  split <;> rfl

/-- Writing the victim back and giving its slot up changes two flags of that slot. -/
theorem release_entries (c : BufferCache) (slot i : Fin bufferCacheSize) :
    let d := (bufferCacheFlush c slot).setEntry slot {(bufferCacheFlush c slot).cache slot with occupied := false}
    (d.cache i).diskSector = (c.cache i).diskSector ∧ (d.cache i).buffer = (c.cache i).buffer ∧
      (d.cache i).access = (c.cache i).access ∧
      (d.cache i).dirty = (if i = slot then false else (c.cache i).dirty) ∧
      (d.cache i).occupied = (if i = slot then false else (c.cache i).occupied) := by
  have flushed := flush_entries c slot i
  by_cases here : i = slot
  · subst here
    simp [setEntry,flushed]
  · simp [setEntry,here,flushed]

/-- The eviction after the loop, on the state in which the loop stopped. -/
theorem evict_afterPasses (c : BufferCache) (k : Nat)
    (loop : evictLoop (bufferCacheSize+1) c = afterPasses c k) :
    Evicted c k (bufferCacheEvict c).1 (bufferCacheEvict c).2 := by
  have same := evictLoop_sameData (bufferCacheSize+1) c
  rw [loop] at same
  have bits : ∀ i, ((afterPasses c k).cache i).access =
      ((c.cache i).access && !decide (∃ j < k, i = ahead c j)) := by
    intro i
    by_cases passed : ∃ j < k, i = ahead c j <;> simp [afterPasses,passed]
  simp only [bufferCacheEvict,loop]
  cases occupied : ((afterPasses c k).cache (afterPasses c k).clock).occupied with
  | false =>
    refine ⟨rfl,rfl,occupied,?_,same.diskSector,same.buffer,fun i _ => same.dirty i,fun i _ => same.occupied i,bits⟩
    simp only [← same.occupied,Bool.not_false,if_true]
    rw [occupied]
    rfl
  | true =>
    have released := release_entries (afterPasses c k) (afterPasses c k).clock
    have written := flush_fsDevice (afterPasses c k) (afterPasses c k).clock
    rw [same.dirty,same.diskSector,same.buffer,same.fsDevice] at written
    have was := (same.occupied (afterPasses c k).clock).symm.trans occupied
    simp only [Bool.not_true,Bool.false_eq_true,if_false]
    refine ⟨?_,rfl,?_,?_,?_,?_,?_,?_,?_⟩
    · exact flush_clock (afterPasses c k) (afterPasses c k).clock
    · exact (released _).2.2.2.2.trans (if_pos rfl)
    · simp only [was,Bool.true_and]
      exact written
    · exact fun i => (released i).1.trans (same.diskSector i)
    · exact fun i => (released i).2.1.trans (same.buffer i)
    · exact fun i other => (released i).2.2.2.1.trans ((if_neg other).trans (same.dirty i))
    · exact fun i other => (released i).2.2.2.2.trans ((if_neg other).trans (same.occupied i))
    · exact fun i => (released i).2.2.1.trans (bits i)

/-- `buffer_cache_evict` stops after at most 65 inspections at the first usable slot in clock order. -/
theorem evict_first_usable (c : BufferCache) : ∃ k d, k ≤ bufferCacheSize ∧ Inspects c (k+1) d ∧
    d.clock = (bufferCacheEvict c).1 ∧
    (∀ j < k, passes (c.cache (ahead c j)) = true) ∧
    (k < bufferCacheSize → passes (c.cache (ahead c k)) = false) ∧
    (k = bufferCacheSize → (bufferCacheEvict c).1 = c.clock) ∧
    Evicted c k (bufferCacheEvict c).1 (bufferCacheEvict c).2 := by
  obtain ⟨k,bound,busy,usable⟩ := first_usable c
  have run := evictLoop_spec c k bound busy usable
  have loop := evictLoop_inspects c _ _ (bufferCacheSize+1) run (Nat.succ_le_succ bound)
  have evicted := evict_afterPasses c k loop
  refine ⟨k,_,bound,run,evicted.place.symm,busy,usable,?_,evicted⟩
  rintro rfl
  exact evicted.place.trans (ahead_full c)

end MyShell.FS.BufferCache

import MyShell.FS.Sector

/-! The buffer cache of cache.c over the block device of block.c: 64 entries,
replaced by the clock algorithm and written back only on eviction or close. -/
namespace MyShell.FS

/-- A block device: its size in sectors and the contents of each sector. A
transfer past the end only prints a message and goes to the sector named. -/
structure Block where
  size : Nat
  sectors : Nat → Sector

def blockRead (block : Block) (sector : Nat) : Sector := block.sectors sector

def blockWrite (block : Block) (sector : Nat) (buffer : Sector) : Block :=
  {block with sectors := Function.update block.sectors sector buffer}

structure CacheEntry where
  occupied : Bool
  diskSector : Nat
  buffer : Sector
  dirty : Bool
  access : Bool

/-- BUFFER_CACHE_SIZE of cache.c. -/
abbrev bufferCacheSize : Nat := 64

instance : NeZero bufferCacheSize := ⟨by decide⟩

/-- The cache array, the static hand of the clock algorithm and `fs_device`. -/
structure BufferCache where
  cache : Fin bufferCacheSize → CacheEntry
  clock : Fin bufferCacheSize
  fsDevice : Block

namespace BufferCache

def setEntry (c : BufferCache) (slot : Fin bufferCacheSize) (entry : CacheEntry) : BufferCache :=
  {c with cache := Function.update c.cache slot entry}

end BufferCache

def bufferCacheInit (c : BufferCache) : BufferCache :=
  {c with cache := fun i => {c.cache i with occupied := false, dirty := false}}

def bufferCacheFlush (c : BufferCache) (slot : Fin bufferCacheSize) : BufferCache :=
  let entry := c.cache slot
  if entry.dirty then
    {c.setEntry slot {entry with dirty := false} with
      fsDevice := blockWrite c.fsDevice entry.diskSector entry.buffer}
  else c

/-- The loop of `buffer_cache_close` over the given slots. -/
def flushOccupied : List (Fin bufferCacheSize) → BufferCache → BufferCache
  | [], c => c
  | i :: slots, c => flushOccupied slots (if (c.cache i).occupied then bufferCacheFlush c i else c)

def bufferCacheClose (c : BufferCache) : BufferCache := flushOccupied (List.finRange bufferCacheSize) c

def bufferCacheLookup (c : BufferCache) (sector : Nat) : Option (Fin bufferCacheSize) :=
  (List.finRange bufferCacheSize).find? fun i =>
    (c.cache i).occupied && (c.cache i).diskSector == sector

/-- The `while (true)` of `buffer_cache_evict`, one slot inspection for each unit of
fuel. It stops with the hand on an empty slot or on one whose access bit is clear. -/
def evictLoop : Nat → BufferCache → BufferCache
  | 0, c => c
  | fuel+1, c =>
    let entry := c.cache c.clock
    if !entry.occupied then c
    else if entry.access then
      -- give a second chance; `clock++; clock %= BUFFER_CACHE_SIZE` is addition in `Fin`
      evictLoop fuel {c.setEntry c.clock {entry with access := false} with clock := c.clock + 1}
    else c

def bufferCacheEvict (c : BufferCache) : Fin bufferCacheSize × BufferCache :=
  let c := evictLoop (bufferCacheSize+1) c
  let slot := c.clock
  if !(c.cache slot).occupied then (slot,c)
  else
    let c := bufferCacheFlush c slot
    (slot,c.setEntry slot {c.cache slot with occupied := false})

/-- The common first half of `buffer_cache_read` and `buffer_cache_write`: the slot
of a hit, or an evicted slot filled from the device. -/
def bufferCacheSlot (c : BufferCache) (sector : Nat) : Fin bufferCacheSize × BufferCache :=
  match bufferCacheLookup c sector with
  | some slot => (slot,c)
  | none =>
    let (slot,c) := bufferCacheEvict c
    (slot,c.setEntry slot {c.cache slot with
      occupied := true
      diskSector := sector
      dirty := false
      buffer := blockRead c.fsDevice sector})

def bufferCacheRead (c : BufferCache) (sector : Nat) : Sector × BufferCache :=
  let (slot,c) := bufferCacheSlot c sector
  ((c.cache slot).buffer,c.setEntry slot {c.cache slot with access := true})

def bufferCacheWrite (c : BufferCache) (sector : Nat) (source : Sector) : BufferCache :=
  let (slot,c) := bufferCacheSlot c sector
  c.setEntry slot {c.cache slot with access := true, dirty := true, buffer := source}

namespace BufferCache

/-- No two occupied entries hold one sector, and a clean entry equals the device. -/
structure Coherent (c : BufferCache) : Prop where
  distinct : ∀ i j, (c.cache i).occupied = true → (c.cache j).occupied = true →
    (c.cache i).diskSector = (c.cache j).diskSector → i = j
  clean : ∀ i, (c.cache i).occupied = true → (c.cache i).dirty = false →
    (c.cache i).buffer = c.fsDevice.sectors (c.cache i).diskSector

/-- The contents of a sector as a read through the cache delivers them. -/
def view (c : BufferCache) (sector : Nat) : Sector :=
  match bufferCacheLookup c sector with
  | some slot => (c.cache slot).buffer
  | none => c.fsDevice.sectors sector

/-- `c` holds `sector` in `slot`. -/
def Holds (c : BufferCache) (slot : Fin bufferCacheSize) (sector : Nat) : Prop :=
  (c.cache slot).occupied = true ∧ (c.cache slot).diskSector = sector

theorem lookup_some (c : BufferCache) (sector : Nat) (slot : Fin bufferCacheSize)
    (found : bufferCacheLookup c sector = some slot) : c.Holds slot sector := by
  have matching := List.find?_some found
  simpa [Holds] using matching

theorem lookup_none (c : BufferCache) (sector : Nat) (missed : bufferCacheLookup c sector = none)
    (slot : Fin bufferCacheSize) : ¬c.Holds slot sector := by
  have absent := List.find?_eq_none.mp missed slot (List.mem_finRange slot)
  simpa [Holds] using absent

theorem view_held (c : BufferCache) (coherent : c.Coherent) (slot : Fin bufferCacheSize)
    (sector : Nat) (held : c.Holds slot sector) : c.view sector = (c.cache slot).buffer := by
  unfold view
  cases found : bufferCacheLookup c sector with
  | none => exact absurd held (lookup_none c sector found slot)
  | some other =>
    have same := lookup_some c sector other found
    rw [coherent.distinct other slot same.1 held.1 (same.2.trans held.2.symm)]

theorem view_absent (c : BufferCache) (sector : Nat)
    (absent : ∀ slot, ¬c.Holds slot sector) : c.view sector = c.fsDevice.sectors sector := by
  unfold view
  cases found : bufferCacheLookup c sector with
  | none => rfl
  | some slot => exact absurd (lookup_some c sector slot found) (absent slot)

/-- The two caches differ in access bits and in the hand of the clock at most. -/
structure SameData (c d : BufferCache) : Prop where
  occupied : ∀ i, (d.cache i).occupied = (c.cache i).occupied
  diskSector : ∀ i, (d.cache i).diskSector = (c.cache i).diskSector
  buffer : ∀ i, (d.cache i).buffer = (c.cache i).buffer
  dirty : ∀ i, (d.cache i).dirty = (c.cache i).dirty
  fsDevice : d.fsDevice = c.fsDevice

theorem SameData.refl (c : BufferCache) : c.SameData c :=
  ⟨fun _ => rfl,fun _ => rfl,fun _ => rfl,fun _ => rfl,rfl⟩

theorem SameData.trans {c d e : BufferCache} (first : c.SameData d) (second : d.SameData e) :
    c.SameData e :=
  ⟨fun i => (second.occupied i).trans (first.occupied i),
    fun i => (second.diskSector i).trans (first.diskSector i),
    fun i => (second.buffer i).trans (first.buffer i),
    fun i => (second.dirty i).trans (first.dirty i),
    second.fsDevice.trans first.fsDevice⟩

theorem SameData.setAccess (c : BufferCache) (slot : Fin bufferCacheSize) (bit : Bool)
    (hand : Fin bufferCacheSize) :
    c.SameData {c.setEntry slot {c.cache slot with access := bit} with clock := hand} := by
  refine ⟨?_,?_,?_,?_,rfl⟩ <;> intro i <;> by_cases same : i = slot
  all_goals
    first
    | subst same; simp [setEntry]
    | simp [setEntry,same]

theorem SameData.coherent {c d : BufferCache} (same : c.SameData d) (coherent : c.Coherent) :
    d.Coherent := by
  constructor
  · intro i j left right sectors
    rw [same.occupied] at left right
    rw [same.diskSector,same.diskSector] at sectors
    exact coherent.distinct i j left right sectors
  · intro i held undirtied
    rw [same.occupied] at held
    rw [same.dirty] at undirtied
    rw [same.buffer,same.diskSector,same.fsDevice]
    exact coherent.clean i held undirtied

theorem SameData.holds {c d : BufferCache} (same : c.SameData d) (slot : Fin bufferCacheSize)
    (sector : Nat) : d.Holds slot sector ↔ c.Holds slot sector := by
  simp only [Holds,same.occupied,same.diskSector]

theorem SameData.view {c d : BufferCache} (same : c.SameData d) (coherent : c.Coherent)
    (sector : Nat) : d.view sector = c.view sector := by
  by_cases held : ∃ slot, c.Holds slot sector
  · obtain ⟨slot,here⟩ := held
    rw [c.view_held coherent slot sector here,
      d.view_held (same.coherent coherent) slot sector ((same.holds slot sector).mpr here),same.buffer]
  · have absent := not_exists.mp held
    rw [c.view_absent sector absent,
      d.view_absent sector (fun slot here => absent slot ((same.holds slot sector).mp here)),same.fsDevice]

theorem evictLoop_sameData (fuel : Nat) (c : BufferCache) : c.SameData (evictLoop fuel c) := by
  induction fuel generalizing c with
  | zero => exact SameData.refl c
  | succ fuel ih =>
    simp only [evictLoop]
    split
    · exact SameData.refl c
    · split
      · exact (SameData.setAccess c c.clock false (c.clock + 1)).trans (ih _)
      · exact SameData.refl c

/-- Writing an entry back cleans it and changes nothing that a reader sees. -/
theorem flush_entries (c : BufferCache) (slot i : Fin bufferCacheSize) :
    ((bufferCacheFlush c slot).cache i).occupied = (c.cache i).occupied ∧
    ((bufferCacheFlush c slot).cache i).diskSector = (c.cache i).diskSector ∧
    ((bufferCacheFlush c slot).cache i).buffer = (c.cache i).buffer ∧
    ((bufferCacheFlush c slot).cache i).access = (c.cache i).access ∧
    ((bufferCacheFlush c slot).cache i).dirty = (if i = slot then false else (c.cache i).dirty) := by
  unfold bufferCacheFlush
  by_cases same : i = slot
  · subst same
    cases dirty : (c.cache i).dirty <;> simp [setEntry,dirty]
  · cases dirty : (c.cache slot).dirty <;> simp [setEntry,same,dirty]

theorem flush_device (c : BufferCache) (slot : Fin bufferCacheSize) :
    (bufferCacheFlush c slot).fsDevice.sectors =
      if (c.cache slot).dirty then
        Function.update c.fsDevice.sectors (c.cache slot).diskSector (c.cache slot).buffer
      else c.fsDevice.sectors := by
  unfold bufferCacheFlush
  cases dirty : (c.cache slot).dirty <;> simp [dirty,blockWrite]

theorem flush_device_other (c : BufferCache) (slot : Fin bufferCacheSize) (sector : Nat)
    (other : (c.cache slot).diskSector ≠ sector) :
    (bufferCacheFlush c slot).fsDevice.sectors sector = c.fsDevice.sectors sector := by
  rw [flush_device]
  split
  · exact Function.update_of_ne (Ne.symm other) _ _
  · rfl

theorem flush_device_own (c : BufferCache) (coherent : c.Coherent) (slot : Fin bufferCacheSize)
    (occupied : (c.cache slot).occupied = true) :
    (bufferCacheFlush c slot).fsDevice.sectors (c.cache slot).diskSector = (c.cache slot).buffer := by
  rw [flush_device]
  split
  · exact Function.update_self _ _ _
  · rename_i undirtied
    exact (coherent.clean slot occupied (by simpa using undirtied)).symm

theorem flush_holds (c : BufferCache) (slot i : Fin bufferCacheSize) (sector : Nat) :
    (bufferCacheFlush c slot).Holds i sector ↔ c.Holds i sector := by
  simp only [Holds,(flush_entries c slot i).1,(flush_entries c slot i).2.1]

theorem flush_coherent (c : BufferCache) (coherent : c.Coherent) (slot : Fin bufferCacheSize)
    (occupied : (c.cache slot).occupied = true) : (bufferCacheFlush c slot).Coherent := by
  constructor
  · intro i j left right sectors
    rw [(flush_entries c slot i).1] at left
    rw [(flush_entries c slot j).1] at right
    rw [(flush_entries c slot i).2.1,(flush_entries c slot j).2.1] at sectors
    exact coherent.distinct i j left right sectors
  · intro i held undirtied
    obtain ⟨occ,sec,buf,_,dirt⟩ := flush_entries c slot i
    rw [occ] at held
    rw [dirt] at undirtied
    rw [buf,sec]
    by_cases same : i = slot
    · subst same
      exact (flush_device_own c coherent i occupied).symm
    · have other : (c.cache slot).diskSector ≠ (c.cache i).diskSector := by
        intro sectors
        exact same (coherent.distinct i slot held occupied sectors.symm)
      rw [flush_device_other c slot _ other]
      exact coherent.clean i held (by simpa [same] using undirtied)

theorem flush_view (c : BufferCache) (coherent : c.Coherent) (slot : Fin bufferCacheSize)
    (occupied : (c.cache slot).occupied = true) (sector : Nat) :
    (bufferCacheFlush c slot).view sector = c.view sector := by
  by_cases held : ∃ i, c.Holds i sector
  · obtain ⟨i,here⟩ := held
    rw [c.view_held coherent i sector here,view_held _ (flush_coherent c coherent slot occupied) i sector
      ((flush_holds c slot i sector).mpr here),(flush_entries c slot i).2.2.1]
  · have absent := not_exists.mp held
    have other : (c.cache slot).diskSector ≠ sector := fun equal => absent slot ⟨occupied,equal⟩
    rw [c.view_absent sector absent,view_absent _ sector
      (fun i here => absent i ((flush_holds c slot i sector).mp here)),flush_device_other c slot sector other]

/-- Emptying a clean entry: what it held is still on the device. -/
theorem release_view (c : BufferCache) (coherent : c.Coherent) (slot : Fin bufferCacheSize)
    (clean : (c.cache slot).dirty = false) :
    (c.setEntry slot {c.cache slot with occupied := false}).Coherent ∧
      ∀ sector, (c.setEntry slot {c.cache slot with occupied := false}).view sector = c.view sector := by
  have entry (i : Fin bufferCacheSize) (other : i ≠ slot) :
      (c.setEntry slot {c.cache slot with occupied := false}).cache i = c.cache i := by
    simp [setEntry,other]
  have own : ((c.setEntry slot {c.cache slot with occupied := false}).cache slot).occupied = false := by
    simp [setEntry]
  have kept (i : Fin bufferCacheSize)
      (held : ((c.setEntry slot {c.cache slot with occupied := false}).cache i).occupied = true) : i ≠ slot := by
    intro same
    subst same
    rw [own] at held
    contradiction
  have coherent' : (c.setEntry slot {c.cache slot with occupied := false}).Coherent := by
    constructor
    · intro i j left right sectors
      have hi := kept i left
      have hj := kept j right
      rw [entry i hi] at left sectors
      rw [entry j hj] at right sectors
      exact coherent.distinct i j left right sectors
    · intro i held undirtied
      have hi := kept i held
      rw [entry i hi] at held undirtied ⊢
      exact coherent.clean i held undirtied
  refine ⟨coherent',fun sector => ?_⟩
  by_cases held : ∃ i, c.Holds i sector
  · obtain ⟨i,here⟩ := held
    rw [c.view_held coherent i sector here]
    by_cases same : i = slot
    · subst same
      rw [view_absent _ sector]
      · rw [coherent.clean i here.1 clean,here.2]
        rfl
      · intro j other
        have hj := kept j other.1
        have there : c.Holds j sector := by simpa only [Holds,entry j hj] using other
        exact hj (coherent.distinct j i there.1 here.1 (there.2.trans here.2.symm))
    · rw [view_held _ coherent' i sector (by simpa only [Holds,entry i same] using here),entry i same]
  · have absent := not_exists.mp held
    rw [c.view_absent sector absent,view_absent _ sector]
    · rfl
    · intro i here
      have hi := kept i here.1
      exact absent i (by simpa only [Holds,entry i hi] using here)

/-- `buffer_cache_evict` hands out an empty slot and changes nothing a reader sees. -/
theorem evict_spec (c : BufferCache) (coherent : c.Coherent) :
    (bufferCacheEvict c).2.Coherent ∧ (∀ sector, (bufferCacheEvict c).2.view sector = c.view sector) ∧
      ((bufferCacheEvict c).2.cache (bufferCacheEvict c).1).occupied = false := by
  have same := evictLoop_sameData (bufferCacheSize+1) c
  have loop := same.coherent coherent
  unfold bufferCacheEvict
  generalize evictLoop (bufferCacheSize+1) c = d at same loop ⊢
  cases occupied : (d.cache d.clock).occupied with
  | false => simpa [occupied] using ⟨loop,same.view coherent⟩
  | true =>
    have flushed := flush_coherent d loop d.clock occupied
    have clean : ((bufferCacheFlush d d.clock).cache d.clock).dirty = false := by
      simpa using (flush_entries d d.clock d.clock).2.2.2.2
    obtain ⟨coherent',view'⟩ := release_view _ flushed d.clock clean
    simp only [occupied,Bool.not_true,Bool.false_eq_true,if_false]
    refine ⟨coherent',fun sector => ?_,by simp [setEntry]⟩
    rw [view' sector,flush_view d loop d.clock occupied,same.view coherent]

theorem evict_holds (c : BufferCache) (i : Fin bufferCacheSize) (sector : Nat)
    (held : (bufferCacheEvict c).2.Holds i sector) : c.Holds i sector := by
  have same := evictLoop_sameData (bufferCacheSize+1) c
  unfold bufferCacheEvict at held
  generalize evictLoop (bufferCacheSize+1) c = d at same held
  rw [← same.holds]
  cases occupied : (d.cache d.clock).occupied with
  | false => simpa [occupied] using held
  | true =>
    simp only [occupied,Bool.not_true,Bool.false_eq_true,if_false] at held
    by_cases hi : i = d.clock
    · subst hi
      simp [Holds,setEntry] at held
    · rw [← flush_holds d d.clock]
      simpa [Holds,setEntry,hi] using held

/-- Occupying an empty slot with the device's copy of a sector no entry holds. -/
theorem fill_spec (c : BufferCache) (coherent : c.Coherent) (slot : Fin bufferCacheSize) (sector : Nat)
    (empty : (c.cache slot).occupied = false) (absent : ∀ i, ¬c.Holds i sector) (entry : CacheEntry)
    (occupied : entry.occupied = true) (named : entry.diskSector = sector)
    (buffer : entry.buffer = c.fsDevice.sectors sector) :
    (c.setEntry slot entry).Coherent ∧ (c.setEntry slot entry).Holds slot sector ∧
      ∀ other, (c.setEntry slot entry).view other = c.view other := by
  have kept (i : Fin bufferCacheSize) (other : i ≠ slot) : (c.setEntry slot entry).cache i = c.cache i := by
    simp [setEntry,other]
  have own : (c.setEntry slot entry).cache slot = entry := by simp [setEntry]
  have here : (c.setEntry slot entry).Holds slot sector := by simp only [Holds,own,occupied,named,and_self]
  have coherent' : (c.setEntry slot entry).Coherent := by
    constructor
    · intro i j left right sectors
      by_cases hi : i = slot <;> by_cases hj : j = slot
      · exact hi.trans hj.symm
      · subst hi
        rw [own,named,kept j hj] at sectors
        rw [kept j hj] at right
        exact absurd ⟨right,sectors.symm⟩ (absent j)
      · subst hj
        rw [own,named,kept i hi] at sectors
        rw [kept i hi] at left
        exact absurd ⟨left,sectors⟩ (absent i)
      · rw [kept i hi] at left sectors
        rw [kept j hj] at right sectors
        exact coherent.distinct i j left right sectors
    · intro i held undirtied
      by_cases hi : i = slot
      · subst hi
        rw [own,named]
        exact buffer
      · rw [kept i hi] at held undirtied ⊢
        exact coherent.clean i held undirtied
  refine ⟨coherent',here,fun other => ?_⟩
  by_cases same : other = sector
  · subst same
    rw [view_held _ coherent' slot other here,own,buffer,c.view_absent other absent]
  · by_cases held : ∃ i, c.Holds i other
    · obtain ⟨i,there⟩ := held
      have hi : i ≠ slot := by
        intro equal
        subst equal
        rw [there.1] at empty
        contradiction
      rw [c.view_held coherent i other there,
        view_held _ coherent' i other (by simpa only [Holds,kept i hi] using there),kept i hi]
    · have gone := not_exists.mp held
      rw [c.view_absent other gone,view_absent _ other]
      · rfl
      · intro i there
        by_cases hi : i = slot
        · subst hi
          exact same (there.2.symm.trans here.2)
        · exact gone i (by simpa only [Holds,kept i hi] using there)

/-- A hit or a filled slot: the sector is held afterwards and no reader notices. -/
theorem slot_spec (c : BufferCache) (coherent : c.Coherent) (sector : Nat) :
    (bufferCacheSlot c sector).2.Coherent ∧
      (bufferCacheSlot c sector).2.Holds (bufferCacheSlot c sector).1 sector ∧
      ∀ other, (bufferCacheSlot c sector).2.view other = c.view other := by
  unfold bufferCacheSlot
  cases found : bufferCacheLookup c sector with
  | some slot => exact ⟨coherent,lookup_some c sector slot found,fun _ => rfl⟩
  | none =>
    obtain ⟨evicted,views,empty⟩ := evict_spec c coherent
    have absent (i) : ¬(bufferCacheEvict c).2.Holds i sector :=
      fun held => lookup_none c sector found i (evict_holds c i sector held)
    have filled := fill_spec _ evicted (bufferCacheEvict c).1 sector empty absent
      {(bufferCacheEvict c).2.cache (bufferCacheEvict c).1 with
        occupied := true
        diskSector := sector
        dirty := false
        buffer := blockRead (bufferCacheEvict c).2.fsDevice sector} rfl rfl rfl
    exact ⟨filled.1,filled.2.1,fun other => (filled.2.2 other).trans (views other)⟩

/-- Rewriting the buffer and the flags of a held entry. -/
theorem rewrite_spec (c : BufferCache) (coherent : c.Coherent) (slot : Fin bufferCacheSize) (sector : Nat)
    (held : c.Holds slot sector) (entry : CacheEntry) (occupied : entry.occupied = true)
    (named : entry.diskSector = sector)
    (clean : entry.dirty = false → entry.buffer = c.fsDevice.sectors sector) :
    (c.setEntry slot entry).Coherent ∧
      ∀ other, (c.setEntry slot entry).view other = if other = sector then entry.buffer else c.view other := by
  have kept (i : Fin bufferCacheSize) (other : i ≠ slot) : (c.setEntry slot entry).cache i = c.cache i := by
    simp [setEntry,other]
  have own : (c.setEntry slot entry).cache slot = entry := by simp [setEntry]
  have holds (i : Fin bufferCacheSize) (x : Nat) : (c.setEntry slot entry).Holds i x ↔ c.Holds i x := by
    by_cases hi : i = slot
    · subst hi
      simp only [Holds,own,occupied,named,held.1,held.2]
    · simp only [Holds,kept i hi]
  have coherent' : (c.setEntry slot entry).Coherent := by
    constructor
    · intro i j left right sectors
      have hi := (holds i _).mp ⟨left,rfl⟩
      have hj := (holds j _).mp ⟨right,rfl⟩
      exact coherent.distinct i j hi.1 hj.1 (hi.2.trans (sectors.trans hj.2.symm))
    · intro i here undirtied
      by_cases hi : i = slot
      · subst hi
        rw [own] at undirtied ⊢
        rw [named]
        exact clean undirtied
      · rw [kept i hi] at here undirtied ⊢
        exact coherent.clean i here undirtied
  refine ⟨coherent',fun other => ?_⟩
  by_cases same : other = sector
  · rw [if_pos same,same,view_held _ coherent' slot sector ((holds slot sector).mpr held),own]
  · rw [if_neg same]
    by_cases present : ∃ i, c.Holds i other
    · obtain ⟨i,there⟩ := present
      have hi : i ≠ slot := by
        intro equal
        subst equal
        exact same (there.2.symm.trans held.2)
      rw [c.view_held coherent i other there,view_held _ coherent' i other ((holds i other).mpr there),kept i hi]
    · have gone := not_exists.mp present
      rw [c.view_absent other gone,view_absent _ other (fun i there => gone i ((holds i other).mp there))]
      rfl

theorem read_spec (c : BufferCache) (coherent : c.Coherent) (sector : Nat) :
    (bufferCacheRead c sector).1 = c.view sector ∧ (bufferCacheRead c sector).2.Coherent ∧
      ∀ other, (bufferCacheRead c sector).2.view other = c.view other := by
  obtain ⟨coherent',held,views⟩ := slot_spec c coherent sector
  unfold bufferCacheRead
  generalize bufferCacheSlot c sector = found at coherent' held views ⊢
  obtain ⟨slot,d⟩ := found
  have buffer := d.view_held coherent' slot sector held
  obtain ⟨after,same⟩ := rewrite_spec d coherent' slot sector held {d.cache slot with access := true}
    held.1 held.2 (fun undirtied => held.2 ▸ coherent'.clean slot held.1 undirtied)
  refine ⟨buffer.symm.trans (views sector),after,fun other => ?_⟩
  rw [same other]
  split
  · rename_i equal
    rw [equal]
    exact buffer.symm.trans (views sector)
  · exact views other

theorem write_spec (c : BufferCache) (coherent : c.Coherent) (sector : Nat) (source : Sector) :
    (bufferCacheWrite c sector source).Coherent ∧
      ∀ other, (bufferCacheWrite c sector source).view other = if other = sector then source else c.view other := by
  obtain ⟨coherent',held,views⟩ := slot_spec c coherent sector
  unfold bufferCacheWrite
  generalize bufferCacheSlot c sector = found at coherent' held views ⊢
  obtain ⟨slot,d⟩ := found
  obtain ⟨after,same⟩ := rewrite_spec d coherent' slot sector held
    {d.cache slot with access := true, dirty := true, buffer := source} held.1 held.2
    (fun undirtied => absurd undirtied (by simp))
  refine ⟨after,fun other => ?_⟩
  rw [same other]
  split
  · rfl
  · exact views other

/-- Flushing the occupied entries of a list of slots. -/
theorem flushOccupied_spec (slots : List (Fin bufferCacheSize)) (c : BufferCache) (coherent : c.Coherent) :
    (flushOccupied slots c).Coherent ∧ (∀ sector, (flushOccupied slots c).view sector = c.view sector) ∧
      (∀ i, ((flushOccupied slots c).cache i).occupied = (c.cache i).occupied ∧
        ((flushOccupied slots c).cache i).diskSector = (c.cache i).diskSector) ∧
      (∀ i, (c.cache i).dirty = false → ((flushOccupied slots c).cache i).dirty = false) ∧
      ∀ i ∈ slots, (c.cache i).occupied = true → ((flushOccupied slots c).cache i).dirty = false := by
  induction slots generalizing c with
  | nil => exact ⟨coherent,fun _ => rfl,fun _ => ⟨rfl,rfl⟩,fun _ clean => clean,by simp⟩
  | cons slot slots ih =>
    simp only [flushOccupied]
    cases occupied : (c.cache slot).occupied with
    | false =>
      obtain ⟨coherent',views,entries,stay,cleaned⟩ := ih c coherent
      simp only [Bool.false_eq_true,if_false]
      refine ⟨coherent',views,entries,stay,fun i member held => ?_⟩
      rcases List.mem_cons.mp member with same | inside
      · subst same
        rw [held] at occupied
        contradiction
      · exact cleaned i inside held
    | true =>
      obtain ⟨coherent',views,entries,stay,cleaned⟩ := ih _ (flush_coherent c coherent slot occupied)
      simp only [if_true]
      refine ⟨coherent',fun sector => (views sector).trans (flush_view c coherent slot occupied sector),
        fun i => ?_,fun i clean => stay i ?_,fun i member held => ?_⟩
      · exact ⟨(entries i).1.trans (flush_entries c slot i).1,(entries i).2.trans (flush_entries c slot i).2.1⟩
      · rw [(flush_entries c slot i).2.2.2.2]
        split
        · rfl
        · exact clean
      · by_cases same : i = slot
        · exact stay i (by rw [(flush_entries c slot i).2.2.2.2,if_pos same])
        · rcases List.mem_cons.mp member with equal | inside
          · exact absurd equal same
          · exact cleaned i inside ((flush_entries c slot i).1.trans held)

/-- After `buffer_cache_close` the device holds what every reader saw. -/
theorem close_spec (c : BufferCache) (coherent : c.Coherent) (sector : Nat) :
    (bufferCacheClose c).fsDevice.sectors sector = c.view sector := by
  obtain ⟨coherent',views,entries,_,cleaned⟩ := flushOccupied_spec (List.finRange bufferCacheSize) c coherent
  rw [← views sector]
  unfold bufferCacheClose
  generalize flushOccupied (List.finRange bufferCacheSize) c = d at coherent' entries cleaned ⊢
  by_cases held : ∃ i, d.Holds i sector
  · obtain ⟨i,here⟩ := held
    have before : (c.cache i).occupied = true := (entries i).1.symm.trans here.1
    rw [view_held _ coherent' i sector here,← here.2]
    exact (coherent'.clean i here.1 (cleaned i (List.mem_finRange i) before)).symm
  · exact (view_absent _ sector (not_exists.mp held)).symm

theorem init_coherent (c : BufferCache) : (bufferCacheInit c).Coherent := by
  constructor <;> simp [bufferCacheInit]

theorem init_view (c : BufferCache) (sector : Nat) :
    (bufferCacheInit c).view sector = c.fsDevice.sectors sector := by
  apply view_absent
  simp [bufferCacheInit,Holds]

end BufferCache

/-- A call to the cache, with its sector. -/
inductive CacheCall where
  | read (sector : Nat)
  | write (sector : Nat) (source : Sector)

/-- What a call delivers, and the cache after it. -/
def CacheCall.exec (call : CacheCall) (c : BufferCache) : Option Sector × BufferCache :=
  match call with
  | .read sector => ((bufferCacheRead c sector).1,(bufferCacheRead c sector).2)
  | .write sector source => (none,bufferCacheWrite c sector source)

/-- The same call on a plain array of sectors, with no cache in between. -/
def CacheCall.plain (call : CacheCall) (disk : Nat → Sector) : Option Sector × (Nat → Sector) :=
  match call with
  | .read sector => (disk sector,disk)
  | .write sector source => (none,Function.update disk sector source)

/-- Calls made one after the other: the deliveries in order and the last state. -/
def runCalls {σ : Type} (exec : CacheCall → σ → Option Sector × σ) : List CacheCall → σ → List (Option Sector) × σ
  | [], s => ([],s)
  | call :: calls, s =>
    let (delivered,s) := exec call s
    let (rest,s) := runCalls exec calls s
    (delivered :: rest,s)

theorem exec_simulates (call : CacheCall) (c : BufferCache) (coherent : c.Coherent) :
    (call.exec c).1 = (call.plain c.view).1 ∧ (call.exec c).2.Coherent ∧
      (call.exec c).2.view = (call.plain c.view).2 := by
  cases call with
  | read sector =>
    obtain ⟨delivered,coherent',views⟩ := c.read_spec coherent sector
    exact ⟨congrArg some delivered,coherent',funext views⟩
  | write sector source =>
    obtain ⟨coherent',views⟩ := c.write_spec coherent sector source
    refine ⟨rfl,coherent',funext fun other => (views other).trans ?_⟩
    simp only [CacheCall.plain,Function.update_apply]

theorem calls_simulate (calls : List CacheCall) (c : BufferCache) (coherent : c.Coherent) :
    (runCalls CacheCall.exec calls c).1 = (runCalls CacheCall.plain calls c.view).1 ∧
      (runCalls CacheCall.exec calls c).2.Coherent ∧
      (runCalls CacheCall.exec calls c).2.view = (runCalls CacheCall.plain calls c.view).2 := by
  induction calls generalizing c with
  | nil => exact ⟨rfl,coherent,rfl⟩
  | cons call calls ih =>
    obtain ⟨delivered,coherent',views⟩ := exec_simulates call c coherent
    obtain ⟨rest,last,final⟩ := ih _ coherent'
    simp only [runCalls]
    rw [views] at rest final
    exact ⟨by rw [delivered,rest],last,final⟩

/-- The cache is transparent: from `buffer_cache_init` on, reads deliver what a plain
array of sectors delivers, the entries stay distinct and the clean ones equal the
device, and `buffer_cache_close` leaves that array on the device. -/
theorem buffer_cache_transparent (c : BufferCache) (calls : List CacheCall) :
    (runCalls CacheCall.exec calls (bufferCacheInit c)).1 =
        (runCalls CacheCall.plain calls c.fsDevice.sectors).1 ∧
      (runCalls CacheCall.exec calls (bufferCacheInit c)).2.Coherent ∧
      (bufferCacheClose (runCalls CacheCall.exec calls (bufferCacheInit c)).2).fsDevice.sectors =
        (runCalls CacheCall.plain calls c.fsDevice.sectors).2 := by
  have start := BufferCache.init_coherent c
  have contents : (bufferCacheInit c).view = c.fsDevice.sectors := funext (BufferCache.init_view c)
  obtain ⟨deliveries,coherent,views⟩ := calls_simulate calls _ start
  rw [contents] at deliveries views
  refine ⟨deliveries,coherent,funext fun sector => ?_⟩
  rw [BufferCache.close_spec _ coherent sector,views]

end MyShell.FS

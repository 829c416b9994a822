import MyShell.FS.Ownership

/-! Removing a file gives back what creating and extending it took, and nothing else. -/
namespace MyShell.FS
open BlockProgram PointerForest Bitmap

/-- The inode sector that the root directory has for a name. -/
def sectorOf (s : Volume) (name : CString) : Option Nat :=
  (findName (rootArray s) name).map fun i => (entryAt (rootArray s) i).inodeSector

/-- Writes to one file that all succeed. The file is opened for each and closed again. -/
inductive Extended (x : Nat) (s : FileSys) : FileSys → Prop
  | none : Extended x s s
  | write {t : FileSys} (buffer : List Byte) (size offset : Int) (before : Extended x s t) (some : 1 ≤ size)
      (second : size < 2147483648) (low : 0 ≤ offset) (first : offset < 2147483648)
      (complete : ((writeSector x buffer size offset).exec t).1 = size) :
      Extended x s ((writeSector x buffer size offset).exec t).2

/-- What sets the state `t` apart from the state `s` before the file `x` was created. -/
structure Grown (reserved dirty : Nat → Prop) (s t : Volume) (name : CString) (x : Nat) : Prop where
  mounted : Mounted reserved dirty t
  named : sectorOf t name = some x
  panics : t.vars.panics = s.vars.panics
  mono : ∀ y, bitmapTest s.vars.freeMap y = true → bitmapTest t.vars.freeMap y = true
  exact : ∀ y, bitmapTest t.vars.freeMap y = true → bitmapTest s.vars.freeMap y = true ∨
    y ∈ ownedSectors (t.device x) t.device x ∨ y ∈ ownedSectors (t.device rootDirSector) t.device rootDirSector
  clear : bitmapTest s.vars.freeMap x = false
  fresh : ∀ pointer path, Key blocks height isPointer pointer path →
    node blocks t.device ((t.device x).word pointer) path ≠ 0 →
    bitmapTest s.vars.freeMap (node blocks t.device ((t.device x).word pointer) path) = false

section
variable {reserved dirty owner : Nat → Prop} {s t u : Volume} {x : Nat} {name : CString}

theorem listed_of_sectorOf (named : sectorOf t name = some x) :
    ∃ i, findName (rootArray t) name = some i ∧ ListedAt (rootArray t) i ∧ (entryAt (rootArray t) i).inodeSector = x := by
  obtain ⟨i,found,sector⟩ := Option.map_eq_some_iff.mp named
  exact ⟨i,found,(findName_listed found).1,sector⟩

/-- The new entry is found under its name. -/
theorem Made.named {size : Int} (made : Made reserved dirty owner s t x name size) (root : RootArray (rootArray s))
    (good : ¬BadName (rootArray s) name) : sectorOf t name = some x := by
  have array : rootArray t = arrayWrite (rootArray s) (newEntry name x).bytes (36 * freeSlot (rootArray s)) 36 := made.root
  have small : x < 4294967296 :=
    (marked_small _ made.ready.packed made.ready.small x (made.layout.marked x (Or.inr rfl))).trans (by decide)
  obtain ⟨positive,slot,-⟩ := freeSlot_spec root.self root.used
  unfold sectorOf
  rw [array,findName_new root.self root.used small good,Option.map_some,entryAt_write slot (by omega),if_pos rfl,
    newEntry_bytes name x small]
  rfl

theorem Mounted.grown {size : Int} (mounted : Mounted reserved dirty s) (same : s.vars.handles.Same t.vars.handles)
    (good : ¬BadName (rootArray s) name) (made : Made reserved dirty (Owns (rootArray s)) s t x name size) :
    Grown reserved dirty s t name x :=
  ⟨(mounted.made same made).1,made.named mounted.root good,made.marks.panics,made.marks.mono,made.exact,made.clear,
    made.fresh⟩

/-- A complete write keeps the sectors of the file and adds some. -/
theorem Gains.owned {d d' : Sector} (gains : Gains s t d d' x) (low : 0 ≤ d.length) (longer : d.length ≤ d'.length)
    (limit : d'.length ≤ 8517120)
    (complete : ∀ k ∈ inodeReach (bytesToSectors d.length), node blocks s.device (d.word k.1) k.2 ≠ 0) (y : Nat)
    (member : y ∈ ownedSectors d s.device x) : y ∈ ownedSectors d' t.device x := by
  rcases List.mem_cons.mp member with rfl | member
  · exact List.mem_cons_self
  · obtain ⟨k,reached,rfl⟩ := List.mem_map.mp member
    refine List.mem_cons_of_mem _ (List.mem_map.mpr ⟨k,inodeReach_mono ?_ k reached,?_⟩)
    · obtain ⟨m,equal⟩ := Int.eq_ofNat_of_zero_le low
      obtain ⟨n,equal'⟩ := Int.eq_ofNat_of_zero_le (Int.le_trans low longer)
      rw [equal,equal',bytesToSectors_nat m (by omega),bytesToSectors_nat n (by omega)]
      omega
    · exact gains.kept k.1 k.2 (inodeReach_key _ k reached) (complete k reached)

/-- One more write. -/
theorem Grown.stored {buffer : List Byte} {ofs n : Nat} (grown : Grown reserved dirty s t name x)
    (same : t.vars.handles.Same u.vars.handles)
    (stored : Stored reserved dirty (Owns (rootArray t)) t u x buffer ofs n true) (inside : ofs + n ≤ 8517120) :
    Grown reserved dirty s u name x := by
  obtain ⟨i,found,listed,sector⟩ := listed_of_sectorOf grown.named
  have owns : Owns (rootArray t) x := sector ▸ owns_listed listed
  have apart : x ≠ rootDirSector := sector ▸ grown.mounted.apart i listed
  obtain ⟨after,array⟩ := grown.mounted.stored same apart stored
  have gains := stored.gains rfl inside
  have length := congrArg List.length (stored.written rfl inside)
  rw [length_arrayWrite,length_contents,length_contents] at length
  have natural := grown.mounted.layout.natural x owns
  have limit := stored.layout.limit x owns
  have positive := stored.layout.natural x owns
  have root : ownedSectors (u.device rootDirSector) u.device rootDirSector =
      ownedSectors (t.device rootDirSector) t.device rootDirSector := by
    rw [stored.inodes _ owns_root apart.symm]
    exact ownedSectors_congr (stored.trees _ owns_root apart.symm) _
  refine ⟨after,?_,stored.marks.panics.trans grown.panics,fun y marked => stored.marks.mono y (grown.mono y marked),
    fun y marked => ?_,grown.clear,fun pointer path key present => ?_⟩
  · unfold sectorOf
    rw [array]
    exact grown.named
  · rcases gains.exact y marked with before | block
    · rw [root]
      rcases grown.exact y before with old | file | directory
      · exact Or.inl old
      · exact Or.inr (Or.inl (gains.owned natural (by omega) limit (grown.mounted.layout.complete x owns) y file))
      · exact Or.inr (Or.inr directory)
    · exact Or.inr (Or.inl block)
  · rcases gains.fresh pointer path key present with kept | clear
    · rw [kept] at present ⊢
      exact grown.fresh pointer path key present
    · cases before : bitmapTest s.vars.freeMap (node blocks u.device ((u.device x).word pointer) path) with
      | false => rfl
      | true => exact absurd (clear.symm.trans (grown.mono _ before)) Bool.false_ne_true

/-- The file is removed. -/
theorem Grown.remove (grown : Grown reserved dirty s t name x) (plain : SlashFree name) :
    ∃ u, (filesysRemove name).exec t = (true,u) ∧ u.vars.panics = s.vars.panics ∧
      ∀ y, bitmapTest u.vars.freeMap y = true ↔ bitmapTest s.vars.freeMap y = true ∨
        y ∈ ownedSectors (u.device rootDirSector) u.device rootDirSector := by
  obtain ⟨i,found,listed,sector⟩ := listed_of_sectorOf grown.named
  have mounted := grown.mounted
  obtain ⟨u,same,outcome⟩ := filesysRemove_spec mounted.layout mounted.ready mounted.origin owns_root mounted.idle.closed
    name plain fun i listed => mounted.listed listed
  have array : contents (t.device rootDirSector) t.device = rootArray t := rfl
  rw [array,found] at outcome
  obtain ⟨run,removed⟩ := outcome
  change Removed reserved dirty (Owns (rootArray t)) t u i (entryAt (rootArray t) i).inodeSector at removed
  have after := (mounted.removed same listed removed).1
  have apart := mounted.apart i listed
  rw [sector] at removed apart
  have root : ownedSectors (u.device rootDirSector) u.device rootDirSector =
      ownedSectors (t.device rootDirSector) t.device rootDirSector := by
    rw [removed.inodes _ owns_root apart.symm]
    exact ownedSectors_congr (removed.trees _ owns_root apart.symm) _
  have owns : Owns (rootArray t) x := sector ▸ owns_listed listed
  refine ⟨u,run,removed.panics.trans grown.panics,fun y => ⟨fun marked => ?_,fun before => ?_⟩⟩
  · obtain ⟨held,gone⟩ := (removed.marks y).mp marked
    rw [root]
    rcases grown.exact y held with old | file | directory
    · exact Or.inl old
    · exact absurd file gone
    · exact Or.inr directory
  · rcases before with old | directory
    · refine (removed.marks y).mpr ⟨grown.mono y old,fun file => ?_⟩
      rcases List.mem_cons.mp file with rfl | block
      · exact Bool.false_ne_true (grown.clear.symm.trans old)
      · obtain ⟨k,reached,rfl⟩ := List.mem_map.mp block
        have clear := grown.fresh k.1 k.2 (inodeReach_key _ k reached) (mounted.layout.complete x owns k reached)
        exact Bool.false_ne_true (clear.symm.trans old)
    · exact after.layout.ownedSectors_marked owns_root y directory

end

/-- A run of complete writes to the new file. -/
theorem Grown.extended {reserved dirty : Nat → Prop} {s : Volume} {first t : FileSys} {name : CString} {x : Nat}
    (grown : Grown reserved dirty s (volume first) name x) (writes : Extended x first t) :
    Grown reserved dirty s (volume t) name x := by
  induction writes with
  | none => exact grown
  | @write t buffer size offset _ some second low before complete ih =>
    obtain ⟨i,-,listed,sector⟩ := listed_of_sectorOf ih.named
    have owns : Owns (rootArray (volume t)) x := sector ▸ owns_listed listed
    obtain ⟨n,rfl⟩ := Int.eq_ofNat_of_zero_le (by omega : 0 ≤ size)
    obtain ⟨ofs,rfl⟩ := Int.eq_ofNat_of_zero_le low
    obtain ⟨done,v,run,same,stored⟩ := writeSector_spec ih.mounted.layout ih.mounted.ready ih.mounted.origin owns
      ih.mounted.idle.live (ih.mounted.idle.unopened (ih.mounted.nonzero owns)) buffer ofs n (by omega) (by omega) (by omega)
    rw [exec_volume] at run
    obtain ⟨result,state⟩ := Prod.mk.inj run
    rw [complete] at result
    have success : done = true ∧ ofs + n ≤ 8517120 := by
      by_contra failed
      rw [if_neg failed] at result
      omega
    obtain ⟨rfl,inside⟩ := success
    rw [state]
    exact ih.stored same stored inside

/-- A `filesys_create` that finds everything it needs. -/
theorem Sane.created {reserved dirty : Nat → Prop} {s : FileSys} (sane : Sane reserved dirty s) (stale : List Byte)
    (name : CString) (plain : SlashFree name) (size : Int) (low : -2147483648 ≤ size) (high : size < 2147483648) :
    ((filesysCreate stale name size false).exec s).1 = (leakAt (volume s) name size).isNone ∧
      (leakAt (volume s) name size = none →
        ∃ x, Grown reserved dirty (volume s) (volume ((filesysCreate stale name size false).exec s).2) name x ∧
          ((filesysCreate stale name size false).exec s).2.vars.freeMap.clearCount +
            (1 + blocksFor size + rootGrowth (volume s).device) = s.vars.freeMap.clearCount) := by
  have mounted := sane.mounted
  obtain ⟨v,same,outcome⟩ := filesysCreate_spec mounted.layout mounted.ready mounted.origin owns_root mounted.idle.closed
    stale name low high
  rw [splitPathFilename_slashFree name plain,exec_volume] at outcome
  cases leak : leakAt (volume s) name size with
  | some leaked =>
    rw [leak] at outcome
    exact ⟨(Prod.mk.inj outcome.1).1,fun contrary => absurd contrary (Option.some_ne_none _)⟩
  | none =>
    rw [leak] at outcome
    obtain ⟨run,x,made⟩ := outcome
    obtain ⟨result,state⟩ := Prod.mk.inj run
    refine ⟨result,fun _ => ⟨x,?_,?_⟩⟩
    · rw [state]
      exact mounted.grown same (createLeak_good _ leak).2 made
    · have count := made.count
      rw [← state] at count
      exact count

/-- Whatever was created, extended and removed again, the free map is as before but for
the sectors of the root directory, and every sector was marked when it was released. -/
theorem remove_undoes_create (c : CacheStore) (fits : Formattable c.cache.fsDevice.size) (s : FileSys)
    (run : Reached (formatted c) s) (stale : List Byte) (name : CString) (plain : SlashFree name) (size : Int)
    (low : -2147483648 ≤ size) (high : size < 2147483648)
    (created : ((filesysCreate stale name size false).exec s).1 = true) (x : Nat)
    (named : sectorOf (volume ((filesysCreate stale name size false).exec s).2) name = some x) (t : FileSys)
    (writes : Extended x ((filesysCreate stale name size false).exec s).2 t) :
    ((filesysRemove name).exec t).1 = true ∧
      ((filesysRemove name).exec t).2.vars.panics = s.vars.panics ∧
      ∀ y, bitmapTest ((filesysRemove name).exec t).2.vars.freeMap y = true ↔ bitmapTest s.vars.freeMap y = true ∨
        y ∈ ownedSectors ((volume ((filesysRemove name).exec t).2).device rootDirSector)
          (volume ((filesysRemove name).exec t).2).device rootDirSector := by
  obtain ⟨reserved,dirty,start⟩ := formatted_sane c fits
  obtain ⟨result,growing⟩ := (start.reached run).created stale name plain size low high
  rw [created] at result
  obtain ⟨z,grown,-⟩ := growing (Option.isNone_iff_eq_none.mp result.symm)
  obtain rfl : z = x := Option.some.inj (grown.named.symm.trans named)
  obtain ⟨u,removal,panics,marks⟩ := (grown.extended writes).remove plain
  rw [exec_volume] at removal
  obtain ⟨result,state⟩ := Prod.mk.inj removal
  rw [← state] at panics marks
  exact ⟨result,panics,marks⟩

theorem blankStore_undo : ∃ x,
    sectorOf (volume ((filesysCreate [] nameA 5000 false).exec (formatted blankStore)).2) nameA = some x ∧
      ((filesysRemove nameA).exec ((filesysCreate [] nameA 5000 false).exec (formatted blankStore)).2).1 = true := by
  obtain ⟨reserved,dirty,sane⟩ := formatted_sane blankStore blankStore_formattable
  have leak := formatted_blankStore_leak
  obtain ⟨result,growing⟩ := sane.created [] nameA (by decide) 5000 (by decide) (by decide)
  rw [leak] at result
  obtain ⟨x,grown,-⟩ := growing leak
  exact ⟨x,grown.named,(remove_undoes_create blankStore blankStore_formattable _ .start [] nameA (by decide) 5000
    (by decide) (by decide) result x grown.named _ .none).1⟩

end MyShell.FS
